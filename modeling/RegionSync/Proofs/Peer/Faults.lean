import RegionSync.Proofs.Peer.Polling

/-!
Where the arithmetic of a peer can fail. Its own number stays in the window, and so do the numbers
that resets leave in its table; but the number of an accepted position is any word that its player
has chosen. A poll for the number after the last word is the one computation that this can stop.
-/

namespace RegionSync.Peer

variable {σ : Scheme} {peer : Peer} {r q : RemotePlayer} {name : EntityName} {s : UInt32}
  {operation : Operation} {operations : List Operation}

/-! Where the numbers of the table are from. -/

/-- A position of the player was heard under this number. -/
def Heard (σ : Scheme) (operations : List Operation) (name : EntityName) (s : UInt32) : Prop :=
  ∃ response p, .hear name response ∈ operations ∧
    readAnswer σ name response = (some (s, .position p), [])

theorem readAnswer_some {response : Response} {answer : UInt32 × Payload} {events : List Event}
    (h : readAnswer σ name response = (some answer, events)) : events = [] := by
  unfold readAnswer at h
  split at h
  · cases h
  · split at h
    · cases h
      rfl
    · cases h

theorem sequence_apply {sequence : UInt32} {payload : Payload}
    (h : q ∈ (peer.apply r sequence payload).peer.players) : q ∈ peer.players ∨
      q.name = r.name ∧ ((∃ goal reason s, payload = .reset goal reason ∧
        peer.window.prev goal = .ok s ∧ q.sequence = some s) ∨
        ∃ p, payload = .position p ∧ q.sequence = some sequence) := by
  unfold apply at h
  cases payload with
  | reset goal reason =>
      dsimp only at h
      split at h
      · exact Or.inl h
      · next s hprev =>
          rcases mem_setPlayer h with rfl | ⟨hq, -⟩
          · exact Or.inr ⟨rfl, Or.inl ⟨goal, reason, s, rfl, hprev, rfl⟩⟩
          · exact Or.inl hq
  | position p =>
      dsimp only at h
      split at h
      · exact Or.inl h
      · exact Or.inl h
      · split at h
        · exact Or.inl h
        · rcases of_mem_accept h with hq | rfl
          · exact Or.inl hq
          · exact Or.inr ⟨rfl, Or.inr ⟨p, rfl, rfl⟩⟩

/-- How a number comes to stand in the table: it stood there before, it is the one before the goal of
a reset, or it is that of a position just heard. -/
def Comes (σ : Scheme) (peer : Peer) (operation : Operation) (name : EntityName) (s : UInt32) :
    Prop :=
  (∃ q ∈ peer.players, q.name = name ∧ q.sequence = some s) ∨
    (∃ goal, peer.window.prev goal = .ok s) ∨ Heard σ [operation] name s

theorem comes_hear {response : Response} (hr : r ∈ (peer.hear σ name response).peer.players)
    (hs : r.sequence = some s) : Comes σ peer (.hear name response) r.name s := by
  unfold hear at hr
  dsimp only at hr
  split at hr
  · exact Or.inl ⟨r, hr, rfl, hs⟩
  · next q hfound =>
      have hkept : r ∈ (peer.setPlayer { q with polled := false }).players →
          Comes σ peer (.hear name response) r.name s := by
        intro hr
        rcases mem_setPlayer hr with rfl | ⟨hr, -⟩
        · exact Or.inl ⟨q, mem_of_player? hfound, rfl, hs⟩
        · exact Or.inl ⟨r, hr, rfl, hs⟩
      split at hr
      · exact hkept hr
      · next sequence payload hanswer =>
          rcases sequence_apply hr with hr | ⟨hname, ⟨goal, -, t, -, hprev, ht⟩ | ⟨p, hp, ht⟩⟩
          · exact hkept hr
          · rw [hs] at ht
            cases ht
            exact Or.inr (Or.inl ⟨goal, hprev⟩)
          · rw [hs] at ht
            cases ht
            have hread : readAnswer σ name response = (some (s, .position p), []) := by
              rw [← hp, ← hanswer]
              exact Prod.ext rfl (readAnswer_some (Prod.ext hanswer rfl))
            have hplayer : q.name = name := name_of_player? hfound
            rw [hname, hplayer]
            exact Or.inr (Or.inr ⟨response, p, List.mem_singleton_self _, hread⟩)

theorem comes_miss (hr : r ∈ (peer.miss name).peer.players) (hs : r.sequence = some s) :
    r ∈ peer.players ∨ ∃ q ∈ peer.players, q.name = r.name ∧ q.sequence = some s := by
  unfold miss at hr
  split at hr
  · exact Or.inl hr
  · next q hfound =>
      have hq := mem_of_player? hfound
      dsimp only at hr
      split at hr
      · rcases mem_setPlayer hr with rfl | ⟨hr, -⟩
        · exact Or.inr ⟨q, hq, rfl, hs⟩
        · exact Or.inl hr
      · split at hr
        · rcases mem_setPlayer hr with rfl | ⟨hr, -⟩
          · cases hs
          · exact Or.inl hr
        · exact Or.inl (List.mem_filter.1 hr).1

theorem comes_step (hr : r ∈ (peer.step σ operation).1.players) (hs : r.sequence = some s) :
    Comes σ peer operation r.name s := by
  have hkept : r ∈ peer.players → Comes σ peer operation r.name s :=
    fun hr => Or.inl ⟨r, hr, rfl, hs⟩
  cases operation with
  | moveTo position =>
      simp only [step] at hr
      split at hr
      · next hok => exact hkept ((moveTo_frame hok).2 ▸ hr)
      · exact hkept hr
  | publish => exact hkept ((publish_frame peer).2 ▸ hr)
  | learn response =>
      rcases of_mem_learn hr with hr | ⟨name, region, rfl, -⟩
      · exact hkept hr
      · cases hs
  | polls =>
      have hframe := pollAll_frame peer.window peer.config.positionTimeout.toNat peer.players
      have hmem := List.mem_map_of_mem (f := fun r => { r with polled := true }) hr
      obtain ⟨q, hq, heq⟩ := List.mem_map.1 (hframe ▸ hmem)
      obtain ⟨hname, -, hsequence, -⟩ := RemotePlayer.mk.inj heq
      exact Or.inl ⟨q, hq, hname, hsequence.trans hs⟩
  | hear name response => exact comes_hear hr hs
  | miss name => exact (comes_miss hr hs).elim hkept Or.inl
  | tagRequests =>
      obtain ⟨q, hq, rfl⟩ := List.mem_map.1 hr
      exact Or.inl ⟨q, hq, rfl, hs⟩
  | track leaf =>
      simp only [step] at hr
      split at hr
      · next hok => exact hkept ((track_frame hok).2 ▸ hr)
      · exact hkept hr
  | untrack leaf => exact hkept (players_untrack_subset peer leaf hr)
  | subscribe region id => exact hkept hr
  | releaseAll => exact hkept hr

/-! What a run keeps. -/

/-- Every number is in the window, unless a position of its player was heard under it, and nobody
has missed more polls than a player survives. -/
structure Accounted (heard : EntityName → UInt32 → Prop) (peer : Peer) : Prop where
  own : ∀ s, peer.self.sequence = some s → s.toNat < peer.window.size.toNat
  number : ∀ r ∈ peer.players, ∀ s, r.sequence = some s →
    s.toNat < peer.window.size.toNat ∨ heard r.name s
  timeouts : ∀ r ∈ peer.players, r.timeouts ≤ peer.config.dropThreshold

theorem Accounted.make {heard : EntityName → UInt32 → Prop} {config : Config} {id : String}
    {position : Point} {secret : Bytes}
    (hmake : make config id position secret = .ok (.ok peer)) : Accounted heard peer := by
  obtain ⟨-, -, -, -, -, -, hpeer⟩ := make_eq_ok hmake
  rw [hpeer]
  refine ⟨?_, ?_, ?_⟩
  · intro s hs
    cases hs
  · intro r hr
    cases hr
  · intro r hr
    cases hr

theorem own_step (hw : peer.window.Fair)
    (hown : ∀ s, peer.self.sequence = some s → s.toNat < peer.window.size.toNat)
    (hs : (peer.step σ operation).1.self.sequence = some s) : s.toNat < peer.window.size.toNat := by
  have hpos : 0 < peer.config.windowSize.toNat :=
    Nat.lt_of_lt_of_le (by decide) hw.four_le
  rcases published_step (σ := σ) peer operation with ⟨hsequence, -⟩ | ⟨t, hnext, hsequence, -⟩
  · exact hown s (hsequence ▸ hs)
  · rw [hsequence] at hs
    cases hs
    exact lt_of_nextSequence hpos hnext

theorem timeouts_step (hr : r ∈ (peer.step σ operation).1.players)
    (hfew : ∀ q ∈ peer.players, q.timeouts ≤ peer.config.dropThreshold) :
    r.timeouts ≤ peer.config.dropThreshold := by
  have hzero : (0 : UInt32) ≤ peer.config.dropThreshold :=
    UInt32.le_iff_toNat_le.2 (Nat.zero_le _)
  rcases of_mem_step hr with ⟨q, hq, hchange⟩ | ⟨name, region, rfl, -⟩
  · cases hchange with
    | kept => exact hfew r hq
    | polled => exact hfew q hq
    | tagged => exact hfew q hq
    | heard => exact hfew q hq
    | reset goal s hprev => exact hzero
    | accepted s p leaf hnewer hleaf => exact hzero
    | missed timeouts hcount hlimit => exact hlimit
  · exact hzero

theorem Accounted.step {heard : EntityName → UInt32 → Prop} (hw : peer.window.Fair)
    (h : Accounted heard peer) (operation : Operation)
    (hheard : ∀ name s, Heard σ [operation] name s → heard name s) :
    Accounted heard (peer.step σ operation).1 := by
  have hconfig : (peer.step σ operation).1.config = peer.config :=
    congrArg Identity.config (identity_step peer operation)
  have hwindow : (peer.step σ operation).1.window = peer.window :=
    congrArg Config.window hconfig
  refine ⟨?_, ?_, ?_⟩
  · intro s hs
    rw [hwindow]
    exact own_step hw h.own hs
  · intro r hr s hs
    rw [hwindow]
    rcases comes_step hr hs with ⟨q, hq, hname, hbefore⟩ | ⟨goal, hprev⟩ | hnew
    · rw [← hname]
      exact h.number q hq s hbefore
    · obtain ⟨t, ht, htN⟩ := hw.prev goal
      rw [ht, Except.ok.injEq] at hprev
      rw [← hprev, htN]
      exact Or.inl (hw.mod_lt _)
    · exact Or.inr (hheard r.name s hnew)
  · intro r hr
    rw [hconfig]
    exact timeouts_step hr h.timeouts

theorem Accounted.run {heard : EntityName → UInt32 → Prop} (hw : peer.window.Fair)
    (h : Accounted heard peer) (operations : List Operation)
    (hheard : ∀ name s, Heard σ operations name s → heard name s) :
    Accounted heard (peer.run σ operations) := by
  induction operations generalizing peer with
  | nil => exact h
  | cons operation operations ih =>
      have hwindow : (peer.step σ operation).1.window = peer.window :=
        congrArg (fun identity => identity.config.window) (identity_step peer operation)
      rw [run_cons]
      apply ih (hwindow ▸ hw)
      · apply h.step hw
        rintro name s ⟨response, p, hmem, hread⟩
        exact hheard name s ⟨response, p, by rw [List.mem_singleton.1 hmem]; simp, hread⟩
      · rintro name s ⟨response, p, hmem, hread⟩
        exact hheard name s ⟨response, p, List.mem_cons_of_mem _ hmem, hread⟩

/-! Which computations have a result. -/

theorem value_publish (hnext : peer.nextSequence = .ok s) :
    ∃ leaf, peer.publish.value = .ok leaf := by
  unfold publish
  rw [hnext]
  dsimp only
  split
  · exact ⟨_, rfl⟩
  · split
    · exact ⟨_, rfl⟩
    · exact ⟨_, rfl⟩

theorem Accounted.nextSequence {heard : EntityName → UInt32 → Prop} (h : Accounted heard peer) :
    ∃ s, peer.nextSequence = .ok s := by
  unfold Peer.nextSequence
  cases hc : peer.self.sequence with
  | none => exact ⟨0, rfl⟩
  | some c =>
      obtain ⟨t, ht, -⟩ := Window.exists_next (h.own c hc)
      exact ⟨t, ht⟩

theorem value_replyTo (hw : peer.window.Fair) (requested : Option UInt32) :
    ∃ reply, peer.replyTo requested = .ok reply := by
  cases hc : peer.self.sequence with
  | none => exact ⟨.silent, by rw [replyTo, hc, Reply.to]⟩
  | some c =>
      cases requested with
      | none =>
          rw [replyTo, hc, Reply.to]
          split <;> exact ⟨_, rfl⟩
      | some q => exact ⟨_, replyTo_some hw hc q⟩

theorem value_apply (hw : peer.window.Fair) (r : RemotePlayer) (s : UInt32) (payload : Payload) :
    (peer.apply r s payload).value = .ok () := by
  cases payload with
  | reset goal reason =>
      obtain ⟨t, ht, -⟩ := hw.prev goal
      simp only [apply, ht]
      rfl
  | position p =>
      have hnewer : ∃ newer, peer.window.isNewer r.sequence s = .ok newer := by
        cases r.sequence with
        | none => exact ⟨true, rfl⟩
        | some held => exact ⟨_, hw.isNewer held s⟩
      obtain ⟨newer, hnewer⟩ := hnewer
      simp only [apply, hnewer]
      cases newer with
      | false => rfl
      | true =>
          dsimp only
          split <;> rfl

theorem value_hear (hw : peer.window.Fair) (name : EntityName) (response : Response) :
    (peer.hear σ name response).value = .ok () := by
  unfold hear
  dsimp only
  split
  · rfl
  · split
    · rfl
    · apply value_apply
      exact hw

theorem value_miss (hdrop : peer.config.dropThreshold.toNat + 1 < 2 ^ 32)
    (hfew : ∀ r ∈ peer.players, r.timeouts ≤ peer.config.dropThreshold) (name : EntityName) :
    (peer.miss name).value = .ok () := by
  unfold miss
  split
  · rfl
  · next r hfound =>
      have hr := UInt32.le_iff_toNat_le.1 (hfew r (mem_of_player? hfound))
      have hone : (1 : UInt32).toNat = 1 := rfl
      obtain ⟨timeouts, hcount, -⟩ := Word.exists_add (a := r.timeouts) (b := 1) (by omega)
      dsimp only
      rw [hcount]
      dsimp only
      split <;> rfl

theorem value_polls (hw : peer.window.Fair) (h : ∀ r ∈ peer.players, ¬ r.Jammed) :
    ∃ polls, peer.polls.value = .ok polls := by
  obtain ⟨-, polls, hpolls, -⟩ := pollAll_of_not_jammed hw peer.config.positionTimeout.toNat h
  exact ⟨polls, hpolls⟩

/-- In every run of a peer whose window leaves words room, the numbers are those of the window and of
positions that were heard; nothing overflows but the polls, and these exactly where a player that is
to be polled was heard under the last word. So nothing overflows at all while all positions are heard
under numbers of the window. -/
theorem overflow_of_run {config : Config} {id : String} {position : Point} {secret : Bytes}
    {start : Peer} (hmake : make config id position secret = .ok (.ok start))
    (hsize : config.windowSize.toNat ≤ 2 ^ 31) (hdrop : config.dropThreshold.toNat + 1 < 2 ^ 32)
    (operations : List Operation) : let peer := start.run σ operations
    (∀ s, peer.self.sequence = some s → s.toNat < config.windowSize.toNat) ∧
      (∀ r ∈ peer.players, ∀ s, r.sequence = some s →
        s.toNat < config.windowSize.toNat ∨ Heard σ operations r.name s) ∧
      (∃ leaf, peer.publish.value = .ok leaf) ∧
      (∀ requested, ∃ reply, peer.replyTo requested = .ok reply) ∧
      (∀ name response, (peer.hear σ name response).value = .ok ()) ∧
      (∀ name, (peer.miss name).value = .ok ()) ∧
      ((∃ r ∈ peer.players, r.Jammed) → peer.polls.value = .error .overflow) ∧
      ((∀ r ∈ peer.players, ¬ r.Jammed) → ∃ polls, peer.polls.value = .ok polls) ∧
      ((∀ name s, Heard σ operations name s → s.toNat < config.windowSize.toNat) →
        (∀ r ∈ peer.players, ∀ s, r.sequence = some s → s.toNat < config.windowSize.toNat) ∧
          ∃ polls, peer.polls.value = .ok polls) := by
  intro peer
  obtain ⟨hvalid, -, -, -, -, -, hstart⟩ := make_eq_ok hmake
  have hconfig : peer.config = config :=
    (congrArg Identity.config (identity_run (σ := σ) start operations)).trans (by rw [hstart]; rfl)
  have hfair : config.window.Fair := Config.fair_of_validate hvalid hsize
  have hw : peer.window.Fair := by
    rw [window, hconfig]
    exact hfair
  have h : Accounted (Heard σ operations) peer := by
    apply (Accounted.make hmake).run (σ := σ) _ operations
    · intro name s hheard
      exact hheard
    · rw [window, hstart]
      exact hfair
  obtain ⟨s, hnext⟩ := h.nextSequence
  obtain ⟨hown, hnumber, hfew⟩ := h
  have hpolls := value_polls hw
  rw [window, hconfig] at hown hnumber
  rw [← hconfig] at hdrop
  refine ⟨hown, hnumber, value_publish hnext, value_replyTo hw, value_hear hw,
    value_miss hdrop hfew, fun hjammed => pollAll_of_jammed hw hjammed, hpolls, fun hheard => ?_⟩
  have hall : ∀ r ∈ peer.players, ∀ s, r.sequence = some s →
      s.toNat < config.windowSize.toNat := by
    intro r hr s hs
    exact (hnumber r hr s hs).elim (fun hlt => hlt) (hheard r.name s)
  refine ⟨hall, hpolls fun r hr hjammed => ?_⟩
  exact hfair.ne_last (hall r hr _ hjammed.2) rfl

/-- With the default window, a peer that has discovered a player can poll it; once it has heard of it
under the last word it cannot. -/
theorem overflow_of_run_bob : ∃ config id position secret start news answer,
    make config id position secret = .ok (.ok start) ∧ config.windowSize = 1024 ∧
      config.aheadThreshold = 3 ∧ config.behindThreshold = 20 ∧ config.dropThreshold = 20 ∧
      (∃ polls, (start.run .sealing [.track ⟨[0, 0]⟩, .learn news]).polls.value = .ok polls) ∧
      (start.run .sealing [.track ⟨[0, 0]⟩, .learn news,
        .hear ⟨"/hub", "bob"⟩ answer]).polls.value = .error .overflow := by
  let config : Config := { hub := "/hub", depth := 2, worldBits := 2 }
  let sealed (name : Name) (content : String) : Response :=
    ⟨name, Text.bytesOf content, 0, 0, Response.signable name (Text.bytesOf content) 0 0, []⟩
  let news := sealed .root "/hub:bob 0/0\n"
  let answer := sealed ((EntityName.mk "/hub" "bob").numbered 0xFFFFFFFF) "0,0,0"
  have hmade : (made? config "alice" ⟨.zero, .zero, .zero⟩ []).any (fun start => decide
      ((∀ r ∈ (start.run .sealing [.track ⟨[0, 0]⟩, .learn news]).players, ¬ r.Jammed) ∧
        ∃ r ∈ (start.run .sealing [.track ⟨[0, 0]⟩, .learn news,
          .hear ⟨"/hub", "bob"⟩ answer]).players, r.Jammed)) = true := by
    decide +kernel
  obtain ⟨start, hstart, hplayers⟩ := exists_make hmade
  obtain ⟨hfree, hjammed⟩ := of_decide_eq_true hplayers
  obtain ⟨-, -, -, -, -, -, -, hpolls, -⟩ := overflow_of_run (σ := .sealing) hstart (by decide)
    (by decide) [.track ⟨[0, 0]⟩, .learn news]
  obtain ⟨-, -, -, -, -, -, hoverflow, -⟩ := overflow_of_run (σ := .sealing) hstart (by decide)
    (by decide) [.track ⟨[0, 0]⟩, .learn news, .hear ⟨"/hub", "bob"⟩ answer]
  exact ⟨config, _, _, _, start, news, answer, hstart, rfl, rfl, rfl, rfl, hpolls hfree,
    hoverflow hjammed⟩

end RegionSync.Peer
