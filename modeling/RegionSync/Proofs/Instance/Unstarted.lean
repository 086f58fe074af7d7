import RegionSync.Proofs.Instance.Tracking

/-!
Before the start. An instance that was asked for no more than to track leaves has not begun anything
else: it is not started, it has no tasks, and the player is not registered.
-/

namespace RegionSync

/-- Nobody has started or stopped the instance. -/
structure Instance.Unstarted (i : Instance) : Prop where
  started : i.started = false
  stopped : i.stopped = false
  registration : i.registration = none
  tasks : i.tasks = 0

namespace Call

variable {i : Instance} {leaf : RegionPath} {purpose : Purpose}

theorem after_trackEnded (hpurpose : purpose ≠ .start) (result : Except PeerError Unit) :
    (trackEnded i leaf purpose result).after = i := by
  cases result with
  | ok value => rw [trackEnded_ok hpurpose]; rfl
  | error e => rw [trackEnded_error hpurpose]; rfl

theorem unstarted_markTracked (h : i.Unstarted) (hpurpose : purpose ≠ .start) :
    (markTracked i leaf purpose).after.Unstarted := by
  unfold markTracked
  split
  · rw [after_trackEnded hpurpose]
    exact ⟨h.started, h.stopped, h.registration, h.tasks⟩
  · rw [after_trackEnded hpurpose]
    exact ⟨h.started, h.stopped, h.registration, h.tasks⟩

theorem unstarted_resume_track (h : i.Unstarted) (hpurpose : purpose ≠ .start) :
    (resume i (.track leaf purpose) .locked).after.Unstarted := by
  rw [resume]
  split
  · rw [after_trackEnded hpurpose]
    exact h
  · split
    · exact unstarted_markTracked h hpurpose
    · exact ⟨h.started, h.stopped, h.registration, h.tasks⟩


theorem unstarted_resume_untrack (h : i.Unstarted) :
    (resume i (.untrack leaf) .locked).after.Unstarted := by
  rw [resume]
  dsimp only
  split
  · exact ⟨h.started, h.stopped, h.registration, h.tasks⟩
  · exact ⟨h.started, h.stopped, h.registration, h.tasks⟩

end Call

/-- No turn of a call that tracks or untracks a leaf begins anything else. -/
theorem Slot.unstarted_next {i i' : Instance} {live live' : List Registration} {slot slot' : Slot}
    {turn : Turn} (h : i.Unstarted) (hslot : slot.Idle i.peer.octree ∨ slot.Owes i.peer live)
    (hnext : slot.next i live turn = some (i', live', slot')) : i'.Unstarted := by
  unfold Slot.next at hnext
  split at hnext
  · next call =>
      split at hnext
      · next hpossible =>
          cases hnext
          cases call with
          | track leaf purpose =>
              rcases hslot with ⟨-, hpurpose⟩ | howes
              · exact Call.unstarted_resume_track h hpurpose
              · exact howes.elim
          | untrack leaf => exact Call.unstarted_resume_untrack h
          | subscribe leaf purpose => cases hpossible.1
          | unsubscribe id => cases hpossible.1
          | announce => cases hpossible.1
          | withdraw id reason => cases hpossible.1
          | stop => cases hpossible.1
          | clear id rest => cases hpossible.1
          | retire id => cases hpossible.1
      · cases hnext
  · obtain ⟨⟨signal, served⟩, -, heq⟩ := Option.map_eq_some_iff.1 hnext
    cases heq
    exact h
  · next call signal =>
      cases hnext
      have howes : (Slot.heard call signal).Owes i.peer live := hslot.resolve_left not_false
      unfold Slot.Owes at howes
      split at howes
      · next heq => cases heq
      · next heq =>
          cases heq
          rw [Call.resume]
          exact Call.unstarted_markTracked ⟨h.started, h.stopped, h.registration, h.tasks⟩ howes.2.1
      · next heq =>
          cases heq
          rw [Call.resume]
          dsimp only [Call.Step.report]
          rw [Call.after_trackEnded howes.1]
          exact ⟨h.started, h.stopped, h.registration, h.tasks⟩
      · next heq => cases heq
      · next heq =>
          cases heq
          exact ⟨h.started, h.stopped, h.registration, h.tasks⟩
      · cases howes
  · cases hnext

namespace Session

variable {σ : Scheme} {s : Session}

theorem Sound.unstarted_act (h : s.Sound) (hi : s.running.Unstarted) (action : Action) :
    (s.act σ action).running.Unstarted := by
  cases action with
  | demand demand =>
      obtain ⟨hafter, -⟩ := demand.first_cases s.running
      rw [Session.act]
      dsimp only
      rcases hafter with hafter | ⟨hafter, -⟩
      · rw [hafter]
        exact hi
      · rw [hafter]
        exact ⟨hi.started, hi.stopped, hi.registration, hi.tasks⟩
  | turn k turn =>
      rw [Session.act]
      split
      · next running live slot' hnext =>
          obtain ⟨slot, hslot, hnext⟩ := Option.bind_eq_some_iff.1 hnext
          refine Slot.unstarted_next hi ?_ hnext
          rcases h.slot hslot with ⟨hstands, -⟩ | ⟨-, hidle⟩
          · exact hstands.lock.imp (fun h => h.2.1) And.right
          · exact Or.inl hidle
      · exact hi
  | other operation =>
      rw [Session.act]
      split
      · exact hi
      · exact ⟨hi.started, hi.stopped, hi.registration, hi.tasks⟩

theorem Sound.unstarted_run (h : s.Sound) (hi : s.running.Unstarted) (actions : List Action) :
    (s.run σ actions).running.Unstarted := by
  induction actions generalizing s with
  | nil => exact hi
  | cons action actions ih => exact ih (h.act action) (h.unstarted_act hi action)

theorem unstarted_ofPeer (peer : Peer) : (ofPeer peer).running.Unstarted :=
  ⟨rfl, rfl, rfl, rfl⟩

end Session

end RegionSync
