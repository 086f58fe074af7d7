import RegionSync.Proofs.Instance.Turn

/-!
Tracking by an instance that many calls are made of. However they interleave, the marks of the
octree, the leaves that are swept and the subscriptions agree, and while no call holds the lock the
registrations at the transport are the subscriptions.
-/

namespace RegionSync.Session

variable {σ : Scheme} {s : Session}

/-- All calls but one are over or wait for the lock. -/
def OthersIdle (t : Octree) (calls : List Slot) (k : Nat) : Prop :=
  ∀ (j : Nat) (other : Slot), j ≠ k → calls[j]? = some other → other.Idle t

/-- What holds between any two actions: the records of the peer agree; the lock is free, and the
registrations at the transport are the subscriptions, or one call holds it and makes up for the
difference. -/
structure Sound (s : Session) : Prop where
  concordant : s.running.peer.Concordant
  ids : (s.live.map (·.id)).Nodup
  lock : s.running.locked = false ∧ (∀ slot ∈ s.calls, slot.Idle s.running.peer.octree) ∧
      s.live.Perm s.running.peer.registrations ∨
    s.running.locked = true ∧ ∃ (k : Nat) (slot : Slot), s.calls[k]? = some slot ∧
      slot.Owes s.running.peer s.live ∧ OthersIdle s.running.peer.octree s.calls k

/-- The lock is taken just while a call holds it. -/
theorem Sound.locked_iff (h : s.Sound) :
    s.running.locked = true ↔ ∃ slot ∈ s.calls, slot.holds = true := by
  rcases h.lock with ⟨hfree, hidle, -⟩ | ⟨hlocked, k, slot, hslot, howes, -⟩
  · rw [hfree]
    constructor
    · intro hlocked
      cases hlocked
    · rintro ⟨slot, hslot, hholds⟩
      rw [(hidle slot hslot).holds_eq_false] at hholds
      cases hholds
  · exact ⟨fun _ => ⟨slot, List.mem_of_getElem? hslot, howes.holds_eq_true⟩, fun _ => hlocked⟩

/-- With all calls over, the lock is free and the registrations at the transport are the subscriptions. -/
theorem Sound.free_of_over (h : s.Sound) (hover : ∀ slot ∈ s.calls, ∃ result, slot = .done result) :
    s.running.locked = false ∧ s.live.Perm s.running.peer.registrations := by
  rcases h.lock with ⟨hfree, -, hperm⟩ | ⟨-, k, slot, hslot, howes, -⟩
  · exact ⟨hfree, hperm⟩
  · obtain ⟨result, rfl⟩ := hover slot (List.mem_of_getElem? hslot)
    exact howes.elim

theorem Sound.make {config : Config} {id : String} {position : Point} {secret : Bytes} {peer : Peer}
    (h : Peer.make config id position secret = .ok (.ok peer)) : (Session.ofPeer peer).Sound := by
  have hconcordant := Peer.Concordant.make h
  obtain ⟨-, -, -, -, -, -, hpeer⟩ := Peer.make_eq_ok h
  have hnone : peer.registrations = [] := by
    rw [hpeer]
    rfl
  refine ⟨hconcordant, List.nodup_nil, Or.inl ⟨rfl, ?_, ?_⟩⟩
  · intro slot hslot
    cases hslot
  · exact .of_eq hnone.symm

theorem Sound.step (h : s.Sound) (operation : Peer.Operation)
    (hkeeps : operation.retracks = false) :
    Sound { s with
      running := { s.running with peer := (s.running.peer.step σ operation).1 } } := by
  have hidentity := Peer.identity_step (σ := σ) s.running.peer operation
  have hsubscriptions := (Peer.records_step (σ := σ) s.running.peer hkeeps).2.1
  have hleaves := Peer.isLeaf_step (σ := σ) h.concordant.consistent operation
  refine ⟨h.concordant.step hkeeps, h.ids, ?_⟩
  rcases h.lock with ⟨hfree, hidle, hperm⟩ | ⟨hlocked, k, slot, hslot, howes, hothers⟩
  · refine Or.inl ⟨hfree, fun slot hslot => (hidle slot hslot).congr hleaves, ?_⟩
    rw [Peer.registrations_congr hidentity hsubscriptions]
    exact hperm
  · refine Or.inr ⟨hlocked, k, slot, hslot, howes.congr hidentity hsubscriptions hleaves, ?_⟩
    intro j other hj hother
    exact (hothers j other hj hother).congr hleaves

theorem Sound.append (h : s.Sound) {slot : Slot} (hslot : slot.Idle s.running.peer.octree) :
    Sound { s with calls := s.calls ++ [slot] } := by
  refine ⟨h.concordant, h.ids, ?_⟩
  rcases h.lock with ⟨hfree, hidle, hperm⟩ | ⟨hlocked, k, holder, hholder, howes, hothers⟩
  · refine Or.inl ⟨hfree, ?_, hperm⟩
    intro other hother
    rcases List.mem_append.1 hother with hother | hother
    · exact hidle other hother
    · rw [List.mem_singleton.1 hother]
      exact hslot
  · refine Or.inr ⟨hlocked, k, holder, ?_, howes, ?_⟩
    · exact List.getElem?_append_left (List.getElem?_eq_some_iff.1 hholder).1 ▸ hholder
    · intro j other hj hother
      by_cases hold : j < s.calls.length
      · rw [List.getElem?_append_left hold] at hother
        exact hothers j other hj hother
      · rw [List.getElem?_append_right (Nat.le_of_not_lt hold)] at hother
        rw [List.mem_singleton.1 (List.mem_of_getElem? hother)]
        exact hslot

/-- One call runs on, while the others are over or wait for the lock. -/
theorem sound_set {running : Instance} {live : List Registration} {calls : List Slot} {k : Nat}
    {slot : Slot} (h : Stands running live slot) (hk : k < calls.length)
    (hothers : OthersIdle running.peer.octree calls k) :
    Sound ⟨running, live, calls.set k slot⟩ := by
  refine ⟨h.concordant, h.ids, ?_⟩
  have hset : OthersIdle running.peer.octree (calls.set k slot) k := by
    intro j other hj hother
    rw [List.getElem?_set_ne (Ne.symm hj)] at hother
    exact hothers j other hj hother
  rcases h.lock with ⟨hfree, hidle, hperm⟩ | ⟨hlocked, howes⟩
  · refine Or.inl ⟨hfree, ?_, hperm⟩
    intro other hother
    obtain ⟨j, hj⟩ := List.getElem?_of_mem hother
    by_cases hjk : j = k
    · rw [hjk, List.getElem?_set_self hk] at hj
      cases hj
      exact hidle
    · exact hset j other hjk hj
  · exact Or.inr ⟨hlocked, k, slot, List.getElem?_set_self hk, howes, hset⟩

/-- A call that runs on stands to the lock as it should, or another one holds it. -/
theorem Sound.slot (h : s.Sound) {k : Nat} {slot : Slot} (hslot : s.calls[k]? = some slot) :
    Stands s.running s.live slot ∧ OthersIdle s.running.peer.octree s.calls k ∨
      s.running.locked = true ∧ slot.Idle s.running.peer.octree := by
  rcases h.lock with ⟨hfree, hidle, hperm⟩ | ⟨hlocked, holder, owing, howing, howes, hothers⟩
  · refine Or.inl ⟨⟨h.concordant, h.ids, Or.inl ⟨hfree, ?_, hperm⟩⟩, ?_⟩
    · exact hidle slot (List.mem_of_getElem? hslot)
    · intro j other _ hother
      exact hidle other (List.mem_of_getElem? hother)
  · by_cases hk : k = holder
    · rw [hk, howing] at hslot
      cases hslot
      rw [hk]
      exact Or.inl ⟨⟨h.concordant, h.ids, Or.inr ⟨hlocked, howes⟩⟩, hothers⟩
    · exact Or.inr ⟨hlocked, hothers k slot hk hslot⟩

theorem Sound.turn_cases (h : s.Sound) (k : Nat) (turn : Turn) :
    s.act σ (.turn k turn) = s ∨ ∃ slot running live slot', s.calls[k]? = some slot ∧
      s.act σ (.turn k turn) = ⟨running, live, s.calls.set k slot'⟩ ∧
      Advances s.running s.live slot running live slot' ∧
      OthersIdle s.running.peer.octree s.calls k := by
  rw [act]
  cases hslot : s.calls[k]? with
  | none => exact Or.inl rfl
  | some slot =>
      rw [Option.bind_some]
      cases hnext : slot.next s.running s.live turn with
      | none => exact Or.inl rfl
      | some after =>
          rcases h.slot hslot with ⟨hstands, hothers⟩ | ⟨hlocked, hidle⟩
          · exact Or.inr ⟨slot, after.1, after.2.1, after.2.2, rfl, rfl, hstands.next hnext, hothers⟩
          · rw [hidle.next_eq_none hlocked] at hnext
            cases hnext

theorem Sound.act (h : s.Sound) (action : Action) : (s.act σ action).Sound := by
  cases action with
  | demand demand =>
      obtain ⟨hafter, hidle⟩ := demand.first_cases s.running
      rw [Session.act]
      have hrunning : Sound { s with running := (demand.first s.running).after } := by
        rcases hafter with hafter | ⟨hafter, -⟩
        · rw [hafter]
          exact h
        · rw [hafter]
          exact h.step (σ := σ) .publish rfl
      exact hrunning.append hidle
  | turn k turn =>
      rcases h.turn_cases k turn with hsame | ⟨slot, _, _, _, hslot, hact, hadvances, hothers⟩
      · rw [hsame]
        exact h
      · rw [hact]
        refine sound_set hadvances.stands (List.getElem?_eq_some_iff.1 hslot).1 ?_
        intro j other hj hother
        exact (hothers j other hj hother).congr hadvances.isLeaf
  | other operation =>
      rw [Session.act]
      split
      · exact h
      · next hkeeps => exact h.step operation (by simpa using hkeeps)

theorem Sound.run (h : s.Sound) (actions : List Action) : (s.run σ actions).Sound := by
  induction actions generalizing s with
  | nil => exact h
  | cons action actions ih => exact ih (h.act action)

/-! A call that fails. -/

/-- A call that can still fail could do so before, and has changed nothing. -/
theorem Sound.fails_act (h : s.Sound) (action : Action) {k : Nat}
    (hfails : ∀ slot, (s.act σ action).calls[k]? = some slot → slot.fails = true) :
    (∀ slot, s.calls[k]? = some slot → slot.fails = true) ∧
      (s.caller? action = some k → (s.act σ action).running.peer = s.running.peer ∧
        (s.act σ action).live = s.live) := by
  cases action with
  | demand demand =>
      obtain ⟨hafter, -⟩ := demand.first_cases s.running
      rw [Session.act] at hfails ⊢
      refine ⟨?_, ?_⟩
      · intro slot hslot
        apply hfails
        exact List.getElem?_append_left (List.getElem?_eq_some_iff.1 hslot).1 ▸ hslot
      · intro hk
        cases hk
        have hnew := hfails _ List.getElem?_concat_length
        rcases hafter with hafter | ⟨-, hnever⟩
        · exact ⟨by rw [hafter], rfl⟩
        · rw [hnever] at hnew
          cases hnew
  | turn j turn =>
      rcases h.turn_cases (σ := σ) j turn with hsame | ⟨slot, _, _, _, hslot, hact, hadvances, -⟩
      · rw [hsame] at hfails ⊢
        exact ⟨hfails, fun _ => ⟨rfl, rfl⟩⟩
      · rw [hact] at hfails ⊢
        by_cases hj : j = k
        · subst hj
          obtain ⟨hbefore, hpeer, hlive⟩ := hadvances.unchanged
            (hfails _ (List.getElem?_set_self (List.getElem?_eq_some_iff.1 hslot).1))
          refine ⟨?_, fun _ => ⟨hpeer, hlive⟩⟩
          intro other hother
          rw [hslot] at hother
          cases hother
          exact hbefore
        · refine ⟨?_, fun hk => absurd (Option.some.inj hk) hj⟩
          intro other hother
          apply hfails
          rw [List.getElem?_set_ne hj]
          exact hother
  | other operation =>
      refine ⟨?_, nofun⟩
      intro slot hslot
      apply hfails
      rw [Session.act]
      split
      · exact hslot
      · exact hslot

/-- A call that fails in the end could do so all the time. -/
theorem Sound.fails_run (h : s.Sound) (actions : List Action) {k : Nat}
    (hfails : ∀ slot, (s.run σ actions).calls[k]? = some slot → slot.fails = true) :
    ∀ slot, s.calls[k]? = some slot → slot.fails = true := by
  induction actions generalizing s with
  | nil => exact hfails
  | cons action actions ih =>
      rw [run_cons] at hfails
      exact (h.fails_act action (ih (h.act action) hfails)).1

/-- Whatever calls are made of a new instance, and however they interleave: a leaf that is marked in
the octree is swept, once, and the regions with a subscription are those that serve such a leaf. The
lock is taken while a call holds it, and while it is free the registrations at the transport are
those that the subscriptions stand for. A call that fails has changed nothing in any of its turns. -/
theorem tracking_of_run {config : Config} {id : String} {position : Point} {secret : Bytes}
    {peer : Peer} (hmake : Peer.make config id position secret = .ok (.ok peer))
    (actions : List Action) :
    let s := (ofPeer peer).run σ actions
    let after := s.running.peer
    (after.tracked.Nodup ∧ after.tracked.Perm after.octree.trackedLeaves) ∧
      ((after.subscriptions.map (·.1)).Nodup ∧ ∀ region,
        region ∈ after.subscriptions.map (·.1) ↔
          ∃ leaf ∈ after.tracked, after.subscriptionFor leaf = region) ∧
      (s.running.locked = true ↔ ∃ slot ∈ s.calls, slot.holds = true) ∧
      (s.running.locked = false →
        (s.live.map (·.id)).Nodup ∧ s.live.Perm after.registrations) ∧
      ∀ k error, s.calls[k]? = some (.done (.error error)) →
        ∀ before action rest, actions = before ++ action :: rest →
          let t := (ofPeer peer).run σ before
          t.caller? action = some k → (t.act σ action).running.peer = t.running.peer ∧
            (t.act σ action).live = t.live := by
  have hsound := Sound.make hmake
  have hafter := hsound.run (σ := σ) actions
  have hconcordant := hafter.concordant
  refine ⟨⟨hconcordant.nodup, hconcordant.perm⟩, ⟨hconcordant.keyed, hconcordant.served⟩,
    hafter.locked_iff, ?_, ?_⟩
  · intro hfree
    refine ⟨hafter.ids, ?_⟩
    rcases hafter.lock with ⟨-, -, hperm⟩ | ⟨hlocked, -⟩
    · exact hperm
    · rw [hfree] at hlocked
      cases hlocked
  · intro k error hfailed before action rest hactions t hcaller
    have ht : t.Sound := hsound.run before
    rw [hactions, run_append, run_cons] at hfailed
    have hfails : ∀ slot, (t.act σ action).calls[k]? = some slot → slot.fails = true := by
      refine Sound.fails_run (σ := σ) (ht.act action) rest ?_
      intro slot hslot
      rw [hfailed] at hslot
      cases hslot
      rfl
    exact (ht.fails_act action hfails).2 hcaller

/-- Two leaves under one subscription, of which the first is given up again, one whose subscription
is refused in between, and the one that the player moves into. -/
theorem tracking_of_run_three_leaves : ∃ config id position secret peer actions,
    Peer.make config id position secret = .ok (.ok peer) ∧
      let s := (ofPeer peer).run .sealing actions
      s.running.locked = false ∧ s.running.peer.octree.trackedLeaves.Perm [⟨[0, 1]⟩, ⟨[7, 7]⟩] ∧
        s.live.Perm [⟨⟨4⟩, Query.regionName peer.broadcast ⟨[0]⟩, .discovery⟩,
          ⟨⟨5⟩, Query.regionName peer.broadcast ⟨[7]⟩, .discovery⟩] ∧
        s.calls.map Slot.fails = [false, false, true, false, false] := by
  let config : Config := { hub := "/hub", depth := 2, worldBits := 2 }
  let actions : List Action := [.demand (.track ⟨[0, 0]⟩), .demand (.track ⟨[0, 1]⟩),
    .turn 0 .grant, .turn 0 (.answer (.ok ⟨4⟩)), .demand (.track ⟨[3, 3]⟩), .turn 0 .resume,
    .turn 2 .grant, .turn 1 .grant, .turn 2 (.answer (.error (.network "down"))),
    .other (.moveTo ⟨.ofNat 3, .ofNat 3, .ofNat 3⟩), .demand .publish, .turn 2 .resume,
    .turn 1 .grant, .demand (.untrack ⟨[0, 0]⟩), .turn 3 .grant, .turn 3 (.answer (.ok ⟨5⟩)),
    .turn 3 .resume, .turn 4 .grant]
  have hmade : (Peer.made? config "bob" ⟨.zero, .zero, .zero⟩ []).any (fun peer =>
      let s := (ofPeer peer).run .sealing actions
      decide (s.running.locked = false ∧ s.running.peer.tracked = [⟨[0, 1]⟩, ⟨[7, 7]⟩] ∧
        s.running.peer.registrations = [⟨⟨4⟩, Query.regionName peer.broadcast ⟨[0]⟩, .discovery⟩,
          ⟨⟨5⟩, Query.regionName peer.broadcast ⟨[7]⟩, .discovery⟩] ∧
        s.calls.map Slot.fails = [false, false, true, false, false])) = true := by
    decide +kernel
  obtain ⟨peer, hmake, hrun⟩ := Peer.exists_make hmade
  obtain ⟨hfree, htracked, hregistrations, hfails⟩ := of_decide_eq_true hrun
  obtain ⟨⟨-, hperm⟩, -, -, hlive, -⟩ := tracking_of_run (σ := .sealing) hmake actions
  refine ⟨config, _, _, _, peer, actions, hmake, hfree, ?_, ?_, hfails⟩
  · exact hperm.symm.trans (.of_eq htracked)
  · exact (hlive hfree).2.trans (.of_eq hregistrations)

end RegionSync.Session
