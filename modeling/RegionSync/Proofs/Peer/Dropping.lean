import RegionSync.Proofs.Peer.Hearing
import RegionSync.Proofs.Peer.Learning

/-!
When a player is dropped. An entry counts the missed polls of its player; besides these, only an
accepted position or a reset changes the count, and only an accepted position or the end of tracking
takes the entry away. So between such changes the count is that of the missed polls, and the one
that exceeds the threshold drops the player.
-/

namespace RegionSync.Peer

variable {σ : Scheme} {peer after : Peer} {e f : EntityName} {activity : Activity}
  {activities : List Activity} {r : RemotePlayer}

/-- The activity is a missed poll of the player. -/
def Activity.isMiss (e : EntityName) : Activity → Bool
  | .operation (.miss name) => name == e
  | _ => false

/-- The activity neither accepts a position or a reset of the player nor ends the tracking of its
leaf. -/
structure Spares (σ : Scheme) (peer : Peer) (e : EntityName) (activity : Activity) : Prop where
  position : ∀ response r s p leaf, activity = .operation (.hear e response) →
    ¬ peer.Accepts σ e response r s p leaf
  reset : ∀ response goal t, activity = .operation (.hear e response) →
    Resets σ e response goal → peer.window.prev goal ≠ .ok t
  leaf : ∀ leaf r, activity = .operation (.untrack leaf) → peer.player? e = some r →
    r.region ≠ some leaf

/-- Each of the activities spares the player in the state that it finds. -/
def SparesAll (σ : Scheme) (peer : Peer) (e : EntityName) : List Activity → Prop
  | [] => True
  | activity :: rest => Spares σ peer e activity ∧ SparesAll σ (peer.perform σ activity).1 e rest

theorem Spares.of_other (hhear : ∀ response, activity ≠ .operation (.hear e response))
    (huntrack : ∀ leaf, activity ≠ .operation (.untrack leaf)) : Spares σ peer e activity where
  position response _ _ _ _ hactivity := absurd hactivity (hhear response)
  reset response _ _ hactivity := absurd hactivity (hhear response)
  leaf leaf _ hactivity := absurd hactivity (huntrack leaf)

theorem Spares.of_untrusted {response : Response} (h : σ.check response ≠ .ok ())
    (peer : Peer) (e f : EntityName) : Spares σ peer e (.operation (.hear f response)) where
  position _ _ _ _ _ hactivity haccepts := by
    cases hactivity
    exact h haccepts.trusted
  reset _ _ _ hactivity hresets := by
    cases hactivity
    exact absurd hresets.1 h
  leaf _ _ hactivity := nomatch hactivity

/-! Entries that stay. -/

theorem Touches.player?_eq (h : Touches e peer after) (hne : f ≠ e) :
    after.player? f = peer.player? f := by
  have hothers : ∀ players : List RemotePlayer, players.find? (·.name == f) =
      (players.filter (·.name != e)).find? (·.name == f) := by
    intro players
    rw [List.find?_filter]
    congr 1
    funext q
    by_cases hname : q.name = f
    · simp [hname, hne]
    · simp [hname]
  rw [player?, hothers, h.others, ← hothers, player?]

theorem touches_miss (hpeer : peer.Consistent) (e : EntityName) :
    Touches e peer (peer.miss e).peer := by
  unfold miss
  split
  · exact .refl e peer
  · next r hknown =>
      have hname := name_of_player? hknown
      dsimp only
      split
      · exact touches_setPlayer { r with polled := false } hname rfl fun _ => rfl
      · next timeouts _ =>
          split
          · exact touches_setPlayer { r with polled := false, timeouts, sequence := none } hname rfl
              fun _ => rfl
          · obtain ⟨old, hold, -, -⟩ := hpeer.housed r (mem_of_player? hknown)
            rw [hold]
            exact touches_forget peer e old

/-- The entry after an answer that is not accepted. -/
theorem Spares.hear {response : Response}
    (h : Spares σ peer e (.operation (.hear e response))) (hknown : peer.player? e = some r) :
    (peer.hear σ e response).peer.player? e = some r.heard := by
  have hafter : (peer.hear σ e response).peer = peer.setPlayer r.heard := by
    rcases useless_or (σ := σ) hknown response with
      huseless | ⟨goal, hresets⟩ | ⟨s, p, leaf, haccepts⟩
    · exact hear_useless hknown huseless
    · cases hprev : peer.window.prev goal with
      | ok t => exact absurd hprev (h.reset response goal t rfl hresets)
      | error fault => exact (hear_resets_fault hknown hresets hprev).1
    · exact absurd haccepts (h.position response r s p leaf rfl)
  rw [hafter]
  exact player?_setPlayer_eq hknown r.heard rfl

theorem mem_players_untrack {leaf : RegionPath} (hr : r ∈ peer.players)
    (hne : r.region ≠ some leaf) : r ∈ (peer.untrack leaf).1.players := by
  unfold untrack
  split
  · have hstays : r ∈ peer.players.filter (not ∘ fun q => q.region == some leaf) :=
      List.mem_filter.2 ⟨hr, by simp [hne]⟩
    rw [List.partition_eq_filter_filter]
    dsimp only
    split <;> exact hstays
  · exact hr

theorem mem_players_learn (hpeer : peer.Consistent) (hr : r ∈ peer.players) (response : Response) :
    r ∈ (peer.learn σ response).peer.players := by
  rcases hpeer.learn_cases (σ := σ) response with hrefused | ⟨-, listings, -, hlearns⟩
  · rw [(learn_of_refused peer hrefused).2]
    exact hr
  · rw [hlearns.players]
    exact List.mem_append_left _ hr

/-- An operation that spares the player keeps its entry, the count of missed polls, the leaf and the
number. -/
theorem Spares.step (hpeer : peer.Consistent) {operation : Operation}
    (h : Spares σ peer e (.operation operation)) (hmiss : operation ≠ .miss e)
    (hknown : peer.player? e = some r) :
    ∃ r', (peer.step σ operation).1.player? e = some r' ∧ r'.timeouts = r.timeouts ∧
      r'.region = r.region ∧ r'.sequence = r.sequence := by
  have hr := mem_of_player? hknown
  have hname := name_of_player? hknown
  have hnodup := (hpeer.step (σ := σ) operation).nodup
  -- With different names in the table, it is enough to find some entry of the name with this count,
  -- leaf and number.
  have hentry : ∀ r' ∈ (peer.step σ operation).1.players, r'.name = e →
      r'.timeouts = r.timeouts ∧ r'.region = r.region ∧ r'.sequence = r.sequence →
      ∃ r', (peer.step σ operation).1.player? e = some r' ∧ r'.timeouts = r.timeouts ∧
        r'.region = r.region ∧ r'.sequence = r.sequence := by
    intro r' hr' hname' hkept
    exact ⟨r', (player?_eq_some_iff hnodup).2 ⟨hr', hname'⟩, hkept⟩
  cases operation with
  | moveTo position =>
      refine hentry r ?_ hname ⟨rfl, rfl, rfl⟩
      simp only [Peer.step]
      split
      · next hok => exact (moveTo_frame hok).2 ▸ hr
      · exact hr
  | publish => exact hentry r ((publish_frame peer).2 ▸ hr) hname ⟨rfl, rfl, rfl⟩
  | learn response => exact hentry r (mem_players_learn hpeer hr response) hname ⟨rfl, rfl, rfl⟩
  | polls =>
      have hframe := pollAll_frame peer.window peer.config.positionTimeout.toNat peer.players
      have hmem := List.mem_map_of_mem (f := fun r => { r with polled := true }) hr
      obtain ⟨q, hq, heq⟩ := List.mem_map.1 (hframe ▸ hmem)
      obtain ⟨hqname, -, hqsequence, hqtimeouts, -, hqregion, -⟩ := RemotePlayer.mk.inj heq
      exact hentry q hq (hqname.trans hname) ⟨hqtimeouts, hqregion, hqsequence⟩
  | hear name response =>
      by_cases hown : name = e
      · subst hown
        exact ⟨r.heard, h.hear hknown, rfl, rfl, rfl⟩
      · refine ⟨r, ?_, rfl, rfl, rfl⟩
        exact ((touches_hear hpeer name response).player?_eq (Ne.symm hown)).trans hknown
  | miss name =>
      have hown : e ≠ name := fun heq => hmiss (heq ▸ rfl)
      exact ⟨r, ((touches_miss hpeer name).player?_eq hown).trans hknown, rfl, rfl, rfl⟩
  | tagRequests =>
      exact hentry { r with tagRequested := true } (List.mem_map.2 ⟨r, hr, rfl⟩) hname ⟨rfl, rfl, rfl⟩
  | track leaf =>
      refine hentry r ?_ hname ⟨rfl, rfl, rfl⟩
      simp only [Peer.step]
      split
      · next hok => exact (track_frame hok).2 ▸ hr
      · exact hr
  | untrack leaf =>
      exact hentry r (mem_players_untrack hr (h.leaf leaf r rfl hknown)) hname ⟨rfl, rfl, rfl⟩
  | subscribe region id => exact hentry r hr hname ⟨rfl, rfl, rfl⟩
  | releaseAll => exact hentry r hr hname ⟨rfl, rfl, rfl⟩

/-- An activity that spares the player and is no missed poll of it keeps its entry, the count, the
leaf and the number, and reports nothing of where it is. -/
theorem Spares.quiet (hpeer : peer.Consistent) (h : Spares σ peer e activity)
    (hmiss : activity.isMiss e = false) (hknown : peer.player? e = some r) :
    (∃ r', (peer.perform σ activity).1.player? e = some r' ∧ r'.timeouts = r.timeouts ∧
      r'.region = r.region ∧ r'.sequence = r.sequence) ∧ peer.told σ e activity = [] := by
  constructor
  · cases activity with
    | operation operation =>
        refine h.step hpeer ?_ hknown
        rintro rfl
        simp [Activity.isMiss] at hmiss
    | _ => exact ⟨r, hknown, rfl, rfl, rfl⟩
  · have hnotice := notice (σ := σ) peer e activity
    generalize peer.told σ e activity = told at hnotice
    cases hnotice with
    | silent => rfl
    | discovered response _ hunknown _ =>
        rw [hknown] at hunknown
        cases hunknown
    | known response r s p leaf hactivity haccepts =>
        exact absurd haccepts (h.position response r s p leaf hactivity)
    | dropped hactivity _ _ =>
        subst hactivity
        simp [Activity.isMiss] at hmiss

theorem eq_of_isMiss (h : activity.isMiss e = true) : activity = .operation (.miss e) := by
  unfold Activity.isMiss at h
  split at h
  · rw [eq_of_beq h]
  · cases h

/-- An activity that the player survives keeps its entry and leaf and counts a missed poll. -/
theorem Spares.counts (hpeer : peer.Consistent) (h : Spares σ peer e activity)
    (hknown : peer.player? e = some r)
    (hfew : r.timeouts.toNat + (if activity.isMiss e then 1 else 0) ≤
      peer.config.dropThreshold.toNat) :
    (∃ r', (peer.perform σ activity).1.player? e = some r' ∧
      r'.timeouts.toNat = r.timeouts.toNat + (if activity.isMiss e then 1 else 0) ∧
      r'.region = r.region) ∧ peer.told σ e activity = [] := by
  cases hmiss : activity.isMiss e with
  | false =>
      obtain ⟨⟨r', hknown', hsame, hregion, -⟩, htold⟩ := h.quiet hpeer hmiss hknown
      exact ⟨⟨r', hknown', congrArg UInt32.toNat hsame, hregion⟩, htold⟩
  | true =>
      obtain rfl := eq_of_isMiss hmiss
      rw [if_pos hmiss] at hfew
      have hlimit := peer.config.dropThreshold.toNat_lt
      have hone : (1 : UInt32).toNat = 1 := rfl
      obtain ⟨timeouts, hadd, hcount⟩ := Word.exists_add (a := r.timeouts) (b := 1) (by omega)
      have hsurvives : timeouts ≤ peer.config.dropThreshold := UInt32.le_iff_toNat_le.2 (by omega)
      obtain ⟨-, hevents, hentry⟩ := miss_kept hknown hadd hsurvives
      exact ⟨⟨_, hentry, hcount, rfl⟩, congrArg (Event.locations e) hevents⟩

/-- The missed poll that is one too many drops its player. -/
theorem miss_dropped (hknown : peer.player? e = some r) {timeouts : UInt32}
    (hcount : Word.add r.timeouts 1 = .ok timeouts)
    (hmany : ¬ timeouts ≤ peer.config.dropThreshold) :
    (peer.miss e).peer.player? e = none ∧ Event.locations e (peer.miss e).events = [.dropped] := by
  unfold miss
  rw [hknown]
  dsimp only
  rw [hcount]
  dsimp only
  rw [if_neg hmany]
  refine ⟨player?_eq_none_iff.2 (by simp [forget]), ?_⟩
  exact (Event.locations_located e e .dropped).trans (if_pos rfl)

/-! All activities. -/

theorem config_perform (peer : Peer) (activity : Activity) :
    (peer.perform σ activity).1.config = peer.config := by
  cases activity with
  | operation operation => exact congrArg Identity.config (identity_step peer operation)
  | _ => rfl

theorem config_performAll (peer : Peer) (activities : List Activity) :
    (peer.performAll σ activities).1.config = peer.config := by
  induction activities using List.reverseRecOn with
  | nil => rfl
  | append_singleton activities activity ih =>
      rw [performAll_concat]
      exact (config_perform _ activity).trans ih

theorem Consistent.perform (h : peer.Consistent) (activity : Activity) :
    (peer.perform σ activity).1.Consistent := by
  cases activity with
  | operation operation => exact h.step operation
  | _ => exact h

/-- As long as the player survives all missed polls, its entry counts them. -/
theorem SparesAll.counted (hpeer : peer.Consistent) (hknown : peer.player? e = some r)
    (hspares : SparesAll σ peer e activities)
    (hfew : r.timeouts.toNat + activities.countP (·.isMiss e) ≤ peer.config.dropThreshold.toNat) :
    (∃ r', (peer.performAll σ activities).1.player? e = some r' ∧
      r'.timeouts.toNat = r.timeouts.toNat + activities.countP (·.isMiss e)) ∧
      Event.locations e (peer.performAll σ activities).2 = [] := by
  induction activities generalizing peer r with
  | nil => exact ⟨⟨r, hknown, rfl⟩, rfl⟩
  | cons activity activities ih =>
      obtain ⟨hfirst, hrest⟩ := hspares
      rw [performAll_cons, Event.locations_append]
      have hconfig := config_perform (σ := σ) peer activity
      rw [List.countP_cons] at hfew ⊢
      obtain ⟨⟨r', hknown', hcount, -⟩, htold⟩ := hfirst.counts hpeer hknown (by omega)
      -- What is missed and counted together stays the same, so the rest starts from where this ends.
      obtain ⟨⟨r'', hknown'', hcount'⟩, hsilent⟩ := ih (hpeer.perform activity) hknown' hrest
        (by rw [hconfig]; omega)
      exact ⟨⟨r'', hknown'', by omega⟩, List.append_eq_nil_iff.2 ⟨htold, hsilent⟩⟩

/-- From any reachable state in which no poll of a player was missed last, and through anything that
neither accepts a position or a reset of it nor ends the tracking of its leaf: while at most
`dropThreshold` polls of the player are missed, its entry stays, counts them, and nothing is reported
of where it is; the next missed poll takes the player out of the table and the whole octree, and is
the one that reports a drop. -/
theorem dropped_of_misses (hpeer : peer.Reachable σ) (hknown : peer.player? e = some r)
    (hzero : r.timeouts = 0) (hlimit : peer.config.dropThreshold.toNat < 2 ^ 32 - 1)
    (hspares : SparesAll σ peer e activities)
    (hfew : activities.countP (·.isMiss e) ≤ peer.config.dropThreshold.toNat) :
    let reached := peer.performAll σ activities
    (∃ r', reached.1.player? e = some r' ∧
      r'.timeouts.toNat = activities.countP (·.isMiss e)) ∧
    Event.locations e reached.2 = [] ∧
    (activities.countP (·.isMiss e) = peer.config.dropThreshold.toNat →
      let dropped := peer.performAll σ (activities ++ [.operation (.miss e)])
      dropped.1.player? e = none ∧ dropped.1.octree.places e = [] ∧
        Event.locations e dropped.2 = [.dropped]) := by
  intro reached
  have hstart : r.timeouts.toNat = 0 := by rw [hzero]; rfl
  have hconsistent := hpeer.consistent.performAll (σ := σ) activities
  obtain ⟨⟨r', hknown', hcount⟩, hsilent⟩ := hspares.counted hpeer.consistent hknown
    (by rw [hstart, Nat.zero_add]; exact hfew)
  rw [hstart, Nat.zero_add] at hcount
  refine ⟨⟨r', hknown', hcount⟩, hsilent, fun hlast => ?_⟩
  have hone : (1 : UInt32).toNat = 1 := rfl
  obtain ⟨timeouts, hadd, htimeouts⟩ := Word.exists_add (a := r'.timeouts) (b := 1) (by omega)
  have hmany : ¬ timeouts ≤ reached.1.config.dropThreshold := by
    rw [config_performAll, UInt32.le_iff_toNat_le]
    omega
  obtain ⟨hgone, hdrop⟩ := miss_dropped hknown' hadd hmany
  intro dropped
  have hdropped : dropped = ((reached.1.miss e).peer, reached.2 ++ (reached.1.miss e).events) :=
    performAll_concat peer activities _
  have hforeign : e ≠ (reached.1.miss e).peer.self.name := by
    have hself : (reached.1.miss e).peer.self = reached.1.self :=
      congrArg Prod.snd (keeps_miss reached.1 e).own
    rw [hself]
    exact name_of_player? hknown' ▸ hconsistent.foreign r' (mem_of_player? hknown')
  rw [hdropped, Event.locations_append, hsilent, hdrop]
  exact ⟨hgone, (hconsistent.step (σ := σ) (.miss e)).places_stranger hforeign hgone, rfl⟩

/-- A player survives one missed poll; a poll sent, a forged answer and an answer that lists it again
change nothing about that, and the second missed poll drops it. -/
theorem dropped_of_misses_bob : ∃ (peer : Peer) (r : RemotePlayer) (activities : List Activity),
    peer.Reachable .sealing ∧ peer.player? ⟨"/hub", "bob"⟩ = some r ∧
      peer.config.dropThreshold = 1 ∧ activities.length = 4 ∧
      (∃ r', (peer.performAll .sealing activities).1.player? ⟨"/hub", "bob"⟩ = some r' ∧
        r'.timeouts.toNat = 1) ∧
      let dropped := peer.performAll .sealing (activities ++ [.operation (.miss ⟨"/hub", "bob"⟩)])
      dropped.1.player? ⟨"/hub", "bob"⟩ = none ∧ dropped.1.octree.places ⟨"/hub", "bob"⟩ = [] ∧
        Event.locations ⟨"/hub", "bob"⟩ dropped.2 = [.dropped] := by
  let config : Config := { hub := "/hub", depth := 2, worldBits := 2, dropThreshold := 1 }
  let bob : EntityName := ⟨"/hub", "bob"⟩
  let sealed (name : Name) (content : String) : Response :=
    ⟨name, Text.bytesOf content, 0, 0, Response.signable name (Text.bytesOf content) 0 0, []⟩
  let forged : Response := { sealed (bob.numbered 3) "0,0,0" with content := Text.bytesOf "1,0,0" }
  let listed : Response := sealed .root "/hub:bob 0/0\n"
  let operations : List Operation := [.track ⟨[0, 0]⟩, .learn listed]
  let activities : List Activity := [.operation (.miss bob), .operation .polls,
    .operation (.hear bob forged), .operation (.learn listed)]
  have hmade : (made? config "alice" ⟨.zero, .zero, .zero⟩ []).any (fun start =>
      let peer := start.run .sealing operations
      (peer.player? bob).any fun r => decide (r.timeouts = 0 ∧ peer.config.dropThreshold = 1)) =
        true := by
    decide +kernel
  obtain ⟨start, hstart, hreached⟩ := exists_make hmade
  have hpeer : (start.run .sealing operations).Reachable .sealing :=
    ⟨config, _, _, _, start, operations, hstart, rfl⟩
  have huntrusted : Scheme.check .sealing forged ≠ .ok () := by decide +kernel
  have hspares : SparesAll .sealing (start.run .sealing operations) bob activities := by
    exact ⟨.of_other nofun nofun, .of_other nofun nofun, .of_untrusted huntrusted _ bob bob,
      .of_other nofun nofun, trivial⟩
  cases hknown : (start.run .sealing operations).player? bob with
  | none => simp [hknown] at hreached
  | some r =>
      simp only [hknown, Option.any_some, decide_eq_true_eq] at hreached
      obtain ⟨hzero, hthreshold⟩ := hreached
      obtain ⟨hcounted, -, hdropped⟩ := dropped_of_misses hpeer hknown hzero
        (by rw [hthreshold]; decide) hspares (by rw [hthreshold]; decide)
      exact ⟨_, r, activities, hpeer, hknown, hthreshold, rfl, hcounted,
        hdropped (by rw [hthreshold]; decide)⟩

end RegionSync.Peer
