import RegionSync.Proofs.Peer.Dropping

/-!
Forged answers. An answer that does not verify ends the poll that it answers, as silence does, but is
not counted as a missed poll. So anybody who answers in the place of a player keeps its entry alive,
where silence would have dropped it.
-/

namespace RegionSync.Peer

variable {σ : Scheme} {peer : Peer} {e : EntityName} {leaf : RegionPath} {activity : Activity}
  {activities : List Activity} {r : RemotePlayer}

/-- The activity ends a poll of the player, with or without an answer. -/
def Activity.endsPoll (e : EntityName) : Activity → Bool
  | .operation (.miss name) => name == e
  | .operation (.hear name _) => name == e
  | _ => false

/-- The activity if the player gave no answer. -/
def Activity.silenced (e : EntityName) : Activity → Activity
  | .operation (.hear name response) =>
    if name = e then .operation (.miss e) else .operation (.hear name response)
  | activity => activity

/-- The activity hears nothing of the player but forged answers, and the leaf stays tracked. -/
structure Unheard (σ : Scheme) (e : EntityName) (leaf : RegionPath) (activity : Activity) :
    Prop where
  forged : ∀ response, activity = .operation (.hear e response) → σ.check response ≠ .ok ()
  leaf : activity ≠ .operation (.untrack leaf)

/-! Answers and silence. -/

theorem isMiss_silenced (e : EntityName) (activity : Activity) :
    (activity.silenced e).isMiss e = activity.endsPoll e := by
  cases activity with
  | operation operation =>
      cases operation with
      | hear name response =>
          by_cases hown : name = e
          · simp [Activity.silenced, Activity.isMiss, Activity.endsPoll, hown]
          · simp [Activity.silenced, Activity.isMiss, Activity.endsPoll, hown]
      | _ => rfl
  | _ => rfl

theorem silenced_of_endsPoll (h : activity.endsPoll e = true) :
    activity.silenced e = .operation (.miss e) :=
  eq_of_isMiss ((isMiss_silenced e activity).trans h)

theorem silenced_of_not_hear (h : ∀ response, activity ≠ .operation (.hear e response)) :
    activity.silenced e = activity := by
  unfold Activity.silenced
  split
  · next name response =>
      refine if_neg fun hown => h response ?_
      rw [hown]
  · rfl

theorem endsPoll_of_isMiss (h : activity.isMiss e = true) : activity.endsPoll e = true := by
  rw [eq_of_isMiss h]
  exact beq_self_eq_true e

/-- A poll that is answered is none that is missed. -/
theorem countP_isMiss_lt {response : Response}
    (h : .operation (.hear e response) ∈ activities) :
    activities.countP (·.isMiss e) < activities.countP (·.endsPoll e) := by
  obtain ⟨before, after, rfl⟩ := List.append_of_mem h
  have hmono : ∀ activities : List Activity,
      activities.countP (·.isMiss e) ≤ activities.countP (·.endsPoll e) := fun _ =>
    List.countP_mono_left fun _ _ => endsPoll_of_isMiss
  have hanswered : Activity.endsPoll e (.operation (.hear e response)) = true := beq_self_eq_true e
  have hmissed : ¬ Activity.isMiss e (.operation (.hear e response)) = true := nofun
  have hbefore := hmono before
  have hafter := hmono after
  rw [List.countP_append, List.countP_append, List.countP_cons, List.countP_cons,
    if_pos hanswered, if_neg hmissed]
  omega

theorem Unheard.silenced (h : Unheard σ e leaf activity) :
    Unheard σ e leaf (activity.silenced e) := by
  unfold Activity.silenced
  split
  · split
    · exact ⟨nofun, nofun⟩
    · exact h
  · exact h

theorem Unheard.spares (h : Unheard σ e leaf activity) (hknown : peer.player? e = some r)
    (hregion : r.region = some leaf) : Spares σ peer e activity where
  position response _ _ _ _ hactivity haccepts := h.forged response hactivity haccepts.trusted
  reset response _ _ hactivity hresets := absurd hresets.1 (h.forged response hactivity)
  leaf other r' hactivity hknown' hother := by
    rw [hknown] at hknown'
    cases hknown'
    rw [hregion] at hother
    cases hother
    exact h.leaf hactivity

/-! All activities. -/

/-- As long as the player survives all missed polls, its leaf stays the same, so all is spared. -/
theorem sparesAll_of_unheard (hpeer : peer.Consistent) (hknown : peer.player? e = some r)
    (hregion : r.region = some leaf) (hunheard : ∀ activity ∈ activities, Unheard σ e leaf activity)
    (hfew : r.timeouts.toNat + activities.countP (·.isMiss e) ≤ peer.config.dropThreshold.toNat) :
    SparesAll σ peer e activities := by
  induction activities generalizing peer r with
  | nil => trivial
  | cons activity activities ih =>
      have hspares := (hunheard activity List.mem_cons_self).spares hknown hregion
      have hconfig := config_perform (σ := σ) peer activity
      rw [List.countP_cons] at hfew
      obtain ⟨⟨r', hknown', hcount, hsame⟩, -⟩ := hspares.counts hpeer hknown (by omega)
      refine ⟨hspares, ih (hpeer.perform activity) hknown' (hsame.trans hregion) ?_ ?_⟩
      · exact fun next hnext => hunheard next (List.mem_cons_of_mem _ hnext)
      · rw [hconfig]
        omega

/-- A missed poll at the threshold drops its player from the table and the octree. -/
theorem Consistent.miss_dropped (hpeer : peer.Consistent) (hknown : peer.player? e = some r)
    (hlast : r.timeouts.toNat = peer.config.dropThreshold.toNat)
    (hlimit : peer.config.dropThreshold.toNat < 2 ^ 32 - 1) :
    (peer.miss e).peer.player? e = none ∧ (peer.miss e).peer.octree.places e = [] ∧
      Event.locations e (peer.miss e).events = [.dropped] := by
  have hone : (1 : UInt32).toNat = 1 := rfl
  obtain ⟨timeouts, hadd, htimeouts⟩ := Word.exists_add (a := r.timeouts) (b := 1) (by omega)
  have hmany : ¬ timeouts ≤ peer.config.dropThreshold := by
    rw [UInt32.le_iff_toNat_le]
    omega
  obtain ⟨hgone, hdrop⟩ := Peer.miss_dropped hknown hadd hmany
  have hforeign : e ≠ (peer.miss e).peer.self.name := by
    have hself : (peer.miss e).peer.self = peer.self := congrArg Prod.snd (keeps_miss peer e).own
    rw [hself]
    exact name_of_player? hknown ▸ hpeer.foreign r (mem_of_player? hknown)
  exact ⟨hgone, (hpeer.miss e).places_stranger hforeign hgone, hdrop⟩

/-- While nothing is heard of the player, the missed poll after as many as the threshold drops it. -/
theorem dropped_of_unheard (hpeer : peer.Consistent) (hknown : peer.player? e = some r)
    (hregion : r.region = some leaf) (hlimit : peer.config.dropThreshold.toNat < 2 ^ 32 - 1)
    (hunheard : ∀ activity ∈ activities, Unheard σ e leaf activity)
    (hlast : r.timeouts.toNat + activities.countP (·.isMiss e) = peer.config.dropThreshold.toNat) :
    let dropped := peer.performAll σ (activities ++ [.operation (.miss e)])
    dropped.1.player? e = none ∧ dropped.1.octree.places e = [] ∧
      Event.locations e dropped.2 = [.dropped] := by
  have hspares := sparesAll_of_unheard hpeer hknown hregion hunheard (Nat.le_of_eq hlast)
  obtain ⟨⟨r', hknown', hcount⟩, hsilent⟩ := hspares.counted hpeer hknown (Nat.le_of_eq hlast)
  have hconfig := config_performAll (σ := σ) peer activities
  obtain ⟨hgone, hplaces, hdrop⟩ := (hpeer.performAll (σ := σ) activities).miss_dropped hknown'
    (by rw [hconfig]; omega) (by rw [hconfig]; exact hlimit)
  intro dropped
  have hdropped : dropped = (((peer.performAll σ activities).1.miss e).peer,
      (peer.performAll σ activities).2 ++ ((peer.performAll σ activities).1.miss e).events) :=
    performAll_concat peer activities _
  rw [hdropped, Event.locations_append, hsilent, hdrop]
  exact ⟨hgone, hplaces, rfl⟩

/-- Forged answers count as no missed polls. However many are heard, the player's entry stays and
counts only what was missed. In silence, the poll after as many as the threshold drops the player; a
single forged answer among the same polls keeps it. -/
theorem dropped_iff_unforged (hpeer : peer.Reachable σ) (hknown : peer.player? e = some r)
    (hregion : r.region = some leaf) (hlimit : peer.config.dropThreshold.toNat < 2 ^ 32 - 1)
    (hunheard : ∀ activity ∈ activities, Unheard σ e leaf activity) :
    (r.timeouts.toNat + activities.countP (·.isMiss e) ≤ peer.config.dropThreshold.toNat →
      (∃ r', (peer.performAll σ activities).1.player? e = some r' ∧
        r'.timeouts.toNat = r.timeouts.toNat + activities.countP (·.isMiss e)) ∧
      Event.locations e (peer.performAll σ activities).2 = []) ∧
    ∀ earlier last, activities = earlier ++ [last] → last.endsPoll e = true →
      r.timeouts.toNat + earlier.countP (·.endsPoll e) = peer.config.dropThreshold.toNat →
      let silent := peer.performAll σ (activities.map (·.silenced e))
      (silent.1.player? e = none ∧ silent.1.octree.places e = [] ∧
        Event.locations e silent.2 = [.dropped]) ∧
      ((peer.performAll σ activities).1.player? e = none ↔
        ∀ response, .operation (.hear e response) ∉ activities) := by
  have hconsistent := hpeer.consistent
  have hkept := fun hfew =>
    (sparesAll_of_unheard hconsistent hknown hregion hunheard hfew).counted hconsistent hknown hfew
  refine ⟨hkept, fun earlier last hall hends hlast => ?_⟩
  have hdropped : let silent := peer.performAll σ (activities.map (·.silenced e))
      silent.1.player? e = none ∧ silent.1.octree.places e = [] ∧
        Event.locations e silent.2 = [.dropped] := by
    have hsilenced : activities.map (·.silenced e) =
        earlier.map (·.silenced e) ++ [.operation (.miss e)] := by
      rw [hall, List.map_append, List.map_singleton, silenced_of_endsPoll hends]
    rw [hsilenced]
    refine dropped_of_unheard hconsistent hknown hregion hlimit ?_ ?_
    · intro activity hactivity
      obtain ⟨heard, hheard, rfl⟩ := List.mem_map.1 hactivity
      exact (hunheard heard (hall ▸ List.mem_append_left _ hheard)).silenced
    · have hmisses : ((·.isMiss e) ∘ (·.silenced e)) = Activity.endsPoll e :=
        funext (isMiss_silenced e)
      rw [List.countP_map, hmisses]
      exact hlast
  refine ⟨hdropped, fun hgone response hheard => ?_, fun hunforged => ?_⟩
  · -- one poll of them at least was not missed, which leaves the player below the threshold
    have hpolls : activities.countP (·.endsPoll e) = earlier.countP (·.endsPoll e) + 1 := by
      rw [hall, List.countP_append, List.countP_singleton, if_pos hends]
    have hmissed := countP_isMiss_lt hheard
    obtain ⟨⟨r', hknown', -⟩, -⟩ := hkept (by omega)
    rw [hgone] at hknown'
    cases hknown'
  · have hsame : activities.map (·.silenced e) = activities := by
      refine (List.map_congr_left fun activity hactivity => ?_).trans (List.map_id activities)
      exact silenced_of_not_hear fun response heq => hunforged response (heq ▸ hactivity)
    rw [← hsame]
    exact hdropped.1

/-- With a threshold of one, the second poll without an answer drops a player; a forged answer to it
keeps the player, where silence would not. -/
theorem dropped_iff_unforged_bob : ∃ (peer : Peer) (r : RemotePlayer) (forged : Response),
    let answered : List Activity := [.operation .polls, .operation (.miss ⟨"/hub", "bob"⟩),
      .operation .polls, .operation (.hear ⟨"/hub", "bob"⟩ forged)]
    let silent := peer.performAll .sealing (answered.map (·.silenced ⟨"/hub", "bob"⟩))
    peer.Reachable .sealing ∧ peer.player? ⟨"/hub", "bob"⟩ = some r ∧ r.timeouts = 0 ∧
      peer.config.dropThreshold = 1 ∧ Scheme.check .sealing forged ≠ .ok () ∧
      silent.1.player? ⟨"/hub", "bob"⟩ = none ∧
      (peer.performAll .sealing answered).1.player? ⟨"/hub", "bob"⟩ ≠ none := by
  let config : Config := { hub := "/hub", depth := 2, worldBits := 2, dropThreshold := 1 }
  let bob : EntityName := ⟨"/hub", "bob"⟩
  let sealed (name : Name) (content : String) : Response :=
    ⟨name, Text.bytesOf content, 0, 0, Response.signable name (Text.bytesOf content) 0 0, []⟩
  let forged : Response := { sealed (bob.numbered 3) "0,0,0" with content := Text.bytesOf "1,0,0" }
  let operations : List Operation := [.track ⟨[0, 0]⟩, .learn (sealed .root "/hub:bob 0/0\n")]
  let earlier : List Activity := [.operation .polls, .operation (.miss bob), .operation .polls]
  let last : Activity := .operation (.hear bob forged)
  have hmade : (made? config "alice" ⟨.zero, .zero, .zero⟩ []).any (fun start =>
      let peer := start.run .sealing operations
      (peer.player? bob).any fun r => decide (r.timeouts = 0 ∧ r.region = some ⟨[0, 0]⟩ ∧
        peer.config.dropThreshold = 1)) = true := by
    decide +kernel
  obtain ⟨start, hstart, hreached⟩ := exists_make hmade
  have hpeer : (start.run .sealing operations).Reachable .sealing :=
    ⟨config, _, _, _, start, operations, hstart, rfl⟩
  have hforged : Scheme.check .sealing forged ≠ .ok () := by decide +kernel
  have hunheard : ∀ activity ∈ earlier ++ [last], Unheard .sealing bob ⟨[0, 0]⟩ activity := by
    simp only [earlier, last, List.cons_append, List.nil_append, List.forall_mem_cons]
    refine ⟨⟨nofun, nofun⟩, ⟨nofun, nofun⟩, ⟨nofun, nofun⟩, ⟨fun response h => ?_, nofun⟩, nofun⟩
    cases h
    exact hforged
  cases hknown : (start.run .sealing operations).player? bob with
  | none => simp [hknown] at hreached
  | some r =>
      simp only [hknown, Option.any_some, decide_eq_true_eq] at hreached
      obtain ⟨hzero, hregion, hthreshold⟩ := hreached
      obtain ⟨⟨hsilent, -, -⟩, hiff⟩ := (dropped_iff_unforged hpeer hknown hregion
        (by rw [hthreshold]; decide) hunheard).2 earlier last rfl (by decide)
        (by rw [hthreshold, hzero]; decide)
      refine ⟨_, r, forged, hpeer, hknown, hzero, hthreshold, hforged, hsilent, fun hgone => ?_⟩
      exact hiff.1 hgone forged (List.mem_append_right _ List.mem_cons_self)

end RegionSync.Peer
