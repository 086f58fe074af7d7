import RegionSync.Proofs.Instance.Session

/-!
What one turn of a call does. A call without the lock has no part in what is registered; one that
holds it makes up for the difference between the registrations at the transport and the
subscriptions, until it gives the lock back.
-/

namespace RegionSync

namespace Registration

variable {live live' : List Registration} {id : RegistrationId}

theorem serve_registration {name : Name} {handler : Handler} {signal : Signal}
    (h : serve live (.registration name handler) (.ok id) = some (signal, live')) :
    id ∉ live.map (·.id) ∧ signal = .registered (.ok id) ∧ live' = live ++ [⟨id, name, handler⟩] := by
  rw [serve] at h
  by_cases htaken : live.any (·.id == id) = true
  · rw [if_pos htaken] at h
    cases h
  · rw [if_neg htaken] at h
    cases h
    refine ⟨?_, rfl, rfl⟩
    intro hmem
    obtain ⟨r, hr, hid⟩ := List.mem_map.1 hmem
    exact htaken (List.any_eq_true.2 ⟨r, hr, beq_iff_eq.2 hid⟩)

theorem serve_removal (h : id ∈ live.map (·.id)) (reply : Except TransportError RegistrationId) :
    serve live (.removal id) reply = some (.removed (.ok ()), live.filter (·.id != id)) := by
  obtain ⟨r, hr, hid⟩ := List.mem_map.1 h
  have hstands : live.any (·.id == id) = true :=
    List.any_eq_true.2 ⟨r, hr, beq_iff_eq.2 hid⟩
  cases reply with
  | ok taken => rw [serve, if_pos hstands]
  | error e => rw [serve, if_pos hstands]

/-- Without the one registration of a number the others are left. -/
theorem perm_of_removal (hids : (live.map (·.id)).Nodup) {r : Registration}
    (h : live.Perm (r :: live')) : (live.filter (·.id != r.id)).Perm live' := by
  have hrest : ((r :: live').map (·.id)).Nodup := (h.map _).nodup_iff.1 hids
  have hothers : (r :: live').filter (·.id != r.id) = live' := by
    rw [List.filter_cons_of_neg (by simp), List.filter_eq_self]
    intro q hq
    rw [bne_iff_ne]
    intro heq
    exact (List.nodup_cons.1 hrest).1 (List.mem_map.2 ⟨q, hq, heq⟩)
  exact (h.filter _).trans (.of_eq hothers)

end Registration

/-! A peer as the calls see it. -/

namespace Peer

variable {peer after : Peer} {leaf : RegionPath}

theorem registrations_congr (hidentity : after.identity = peer.identity)
    (hsubscriptions : after.subscriptions = peer.subscriptions) :
    after.registrations = peer.registrations := by
  simp only [registrations, hsubscriptions, regionName_congr hidentity]

theorem registrations_track (h : peer.track leaf = .ok after) :
    after.registrations = peer.registrations ∧
      ∀ p, after.octree.isLeaf p = peer.octree.isLeaf p := by
  obtain ⟨octree, tracked, htrack, rfl⟩ := exists_of_track h
  refine ⟨rfl, Octree.isLeaf_congr ?_⟩
  rw [(Octree.track_eq_ok_iff.1 htrack).2]
  rfl

end Peer

namespace Slot

/-- A call that is over or waits for the lock. -/
def Idle (t : Octree) : Slot → Prop
  | waits (.track leaf purpose) => t.isLeaf leaf = true ∧ purpose ≠ .start
  | waits (.untrack _) => True
  | done _ => True
  | _ => False

/-- A call that holds the lock, and how it stands to the transport: one registration may stand there
that is not noted as a subscription yet, or no longer. -/
def Owes (peer : Peer) (live : List Registration) : Slot → Prop
  | waits (.subscribe leaf purpose) =>
    peer.octree.isLeaf leaf = true ∧ purpose ≠ .start ∧
      peer.subscriptionFor leaf ∉ peer.subscriptions.map (·.1) ∧ live.Perm peer.registrations
  | heard (.subscribe leaf purpose) (.registered (.ok id)) =>
    peer.octree.isLeaf leaf = true ∧ purpose ≠ .start ∧
      peer.subscriptionFor leaf ∉ peer.subscriptions.map (·.1) ∧
      live.Perm (⟨id, peer.regionName (peer.subscriptionFor leaf), .discovery⟩ ::
        peer.registrations)
  | heard (.subscribe _ purpose) (.registered (.error _)) =>
    purpose ≠ .start ∧ live.Perm peer.registrations
  | waits (.unsubscribe id) => ∃ name, live.Perm (⟨id, name, .discovery⟩ :: peer.registrations)
  | heard (.unsubscribe _) (.removed (.ok ())) => live.Perm peer.registrations
  | _ => False

variable {peer after : Peer} {live : List Registration} {slot : Slot}

theorem Idle.congr {t t' : Octree} (h : ∀ p, t'.isLeaf p = t.isLeaf p) (hslot : slot.Idle t) :
    slot.Idle t' := by
  unfold Idle at hslot ⊢
  split at hslot
  · rw [h]
    exact hslot
  · trivial
  · trivial
  · cases hslot

theorem Idle.holds_eq_false {t : Octree} (h : slot.Idle t) : slot.holds = false := by
  unfold Idle at h
  split at h
  · rfl
  · rfl
  · rfl
  · cases h

theorem Owes.holds_eq_true (h : slot.Owes peer live) : slot.holds = true := by
  unfold Owes at h
  split at h
  · rfl
  · rfl
  · rfl
  · rfl
  · rfl
  · cases h

theorem Owes.congr (hidentity : after.identity = peer.identity)
    (hsubscriptions : after.subscriptions = peer.subscriptions)
    (hleaf : ∀ p, after.octree.isLeaf p = peer.octree.isLeaf p) (h : slot.Owes peer live) :
    slot.Owes after live := by
  have hregistrations := Peer.registrations_congr hidentity hsubscriptions
  have hname := Peer.regionName_congr hidentity
  unfold Owes at h ⊢
  split at h
  · simpa only [hleaf, Peer.subscriptionFor_congr hidentity, hsubscriptions, hregistrations] using h
  · simpa only [hleaf, Peer.subscriptionFor_congr hidentity, hsubscriptions, hregistrations, hname]
      using h
  · rwa [hregistrations]
  · rwa [hregistrations]
  · rwa [hregistrations]
  · cases h

end Slot

/-! What one turn does. -/

namespace Call

variable {i : Instance} {leaf : RegionPath} {purpose : Purpose}

theorem trackEnded_ok (hpurpose : purpose ≠ .start) :
    trackEnded i leaf purpose (.ok ()) = endWith i (.ok ()) := by
  cases purpose with
  | host => rfl
  | start => exact absurd rfl hpurpose
  | publication => rfl

/-- Only a host hears that a leaf cannot be tracked. -/
theorem trackEnded_error (hpurpose : purpose ≠ .start) (e : PeerError) :
    trackEnded i leaf purpose (.error e) =
      endWith i (if purpose = .host then .error e else .ok ()) := by
  cases purpose with
  | host => rfl
  | start => exact absurd rfl hpurpose
  | publication => rfl

theorem markTracked_eq (hleaf : i.peer.octree.isLeaf leaf = true) (hpurpose : purpose ≠ .start) :
    ∃ after, i.peer.track leaf = .ok after ∧ markTracked i leaf purpose =
      endWith { i with peer := after, locked := false } (.ok ()) := by
  obtain ⟨octree, -, htrack⟩ := Peer.exists_track hleaf
  refine ⟨_, htrack, ?_⟩
  rw [markTracked, htrack]
  exact trackEnded_ok hpurpose

theorem beginTrack_eq (i : Instance) (leaf : RegionPath) (hpurpose : purpose ≠ .start) :
    (beginTrack i leaf purpose).after = i ∧
      (Slot.ofProgress (beginTrack i leaf purpose).progress).Idle i.peer.octree ∧
      (purpose ≠ .host → (Slot.ofProgress (beginTrack i leaf purpose).progress).fails = false) := by
  by_cases hleaf : i.peer.octree.isLeaf leaf = true
  · rw [beginTrack, if_pos hleaf]
    exact ⟨rfl, ⟨hleaf, hpurpose⟩, decide_eq_false⟩
  · rw [beginTrack, if_neg hleaf, trackEnded_error hpurpose]
    refine ⟨rfl, trivial, ?_⟩
    intro hhost
    rw [if_neg hhost]
    rfl

end Call

/-- A new call leaves the peer alone, but for a publication, and waits for the lock or is over. -/
theorem Demand.first_cases (i : Instance) (demand : Demand) :
    ((demand.first i).after = i ∨ (demand.first i).after = { i with peer := i.peer.publish.peer } ∧
        (Slot.ofProgress (demand.first i).progress).fails = false) ∧
      (Slot.ofProgress (demand.first i).progress).Idle (demand.first i).after.peer.octree := by
  cases demand with
  | track leaf =>
      obtain ⟨hafter, hidle, -⟩ := Call.beginTrack_eq i leaf (show Purpose.host ≠ .start by decide)
      refine ⟨Or.inl hafter, ?_⟩
      rw [show (Demand.track leaf).first i = Call.beginTrack i leaf .host from rfl, hafter]
      exact hidle
  | untrack leaf => exact ⟨Or.inl rfl, trivial⟩
  | publish =>
      rw [first, Instance.publishOnce, Call.published]
      cases i.peer.publish.value.toOption.join with
      | none => exact ⟨Or.inr ⟨rfl, rfl⟩, trivial⟩
      | some leaf =>
          obtain ⟨hafter, hidle, hfails⟩ := Call.beginTrack_eq
            { i with peer := i.peer.publish.peer } leaf (show Purpose.publication ≠ .start by decide)
          refine ⟨Or.inr ⟨hafter, hfails (by decide)⟩, ?_⟩
          dsimp only
          rw [hafter]
          exact hidle

/-- A call that can run on: the records of the peer agree, and either the lock is free and the
registrations at the transport are the subscriptions, or the call holds the lock and makes up for
the difference. -/
structure Stands (i : Instance) (live : List Registration) (slot : Slot) : Prop where
  concordant : i.peer.Concordant
  ids : (live.map (·.id)).Nodup
  lock : i.locked = false ∧ slot.Idle i.peer.octree ∧ live.Perm i.peer.registrations ∨
    i.locked = true ∧ slot.Owes i.peer live

/-- What a turn makes of a call that can run on. -/
structure Advances (i : Instance) (live : List Registration) (slot : Slot) (i' : Instance)
    (live' : List Registration) (slot' : Slot) : Prop where
  stands : Stands i' live' slot'
  isLeaf : ∀ p, i'.peer.octree.isLeaf p = i.peer.octree.isLeaf p
  unchanged : slot'.fails = true → slot.fails = true ∧ i'.peer = i.peer ∧ live' = live

/-- A call that cannot fail any more may change what it likes. -/
theorem Advances.harmless {i i' : Instance} {live live' : List Registration} {slot slot' : Slot}
    (hstands : Stands i' live' slot')
    (hleaf : ∀ p, i'.peer.octree.isLeaf p = i.peer.octree.isLeaf p)
    (hfails : slot'.fails = false) : Advances i live slot i' live' slot' := by
  refine ⟨hstands, hleaf, ?_⟩
  intro hstill
  rw [hfails] at hstill
  cases hstill

/-- The call runs on by this step; the transport takes no part in it. -/
abbrev RunsOn (i : Instance) (live : List Registration) (slot : Slot) (step : Call.Step) : Prop :=
  Advances i live slot step.after live (.ofProgress step.progress)

namespace Stands

variable {i : Instance} {live : List Registration} {slot : Slot} {leaf : RegionPath}
  {purpose : Purpose}

theorem of_free (h : Stands i live slot) (hfree : i.locked = false) :
    slot.Idle i.peer.octree ∧ live.Perm i.peer.registrations := by
  rcases h.lock with ⟨-, hidle⟩ | ⟨hlocked, -⟩
  · exact hidle
  · rw [hfree] at hlocked
    cases hlocked

theorem owes (h : Stands i live slot) (hbusy : ¬slot.Idle i.peer.octree) :
    i.locked = true ∧ slot.Owes i.peer live := by
  rcases h.lock with ⟨-, hidle, -⟩ | hlocked
  · exact absurd hidle hbusy
  · exact hlocked

/-- The lock goes to a call that tracks: the leaf is tracked already, or its subscription stands, or
the call registers one. -/
theorem grant_track (h : Stands i live (.waits (.track leaf purpose))) (hfree : i.locked = false) :
    RunsOn i live (.waits (.track leaf purpose)) (Call.resume i (.track leaf purpose) .locked) := by
  obtain ⟨⟨hleaf, hpurpose⟩, hperm⟩ := h.of_free hfree
  rw [Call.resume]
  by_cases htracked : i.peer.isTracked leaf = true
  · rw [if_pos htracked, Call.trackEnded_ok hpurpose]
    exact .harmless ⟨h.concordant, h.ids, Or.inl ⟨hfree, trivial, hperm⟩⟩ (fun _ => rfl) rfl
  rw [if_neg htracked]
  by_cases hsubscribed : i.peer.hasSubscription (i.peer.subscriptionFor leaf) = true
  · rw [if_pos hsubscribed]
    obtain ⟨after, htrack, hmark⟩ := Call.markTracked_eq hleaf hpurpose
    obtain ⟨hregistrations, hleaves⟩ := Peer.registrations_track htrack
    have hserved := (Peer.hasSubscription_iff _).1 hsubscribed
    have hconcordant : after.Concordant := by
      refine h.concordant.track h.concordant.keyed ?_ htrack
      intro region
      refine ⟨Or.inl, ?_⟩
      rintro (hregion | rfl)
      · exact hregion
      · exact hserved
    rw [← hregistrations] at hperm
    rw [hmark]
    exact .harmless ⟨hconcordant, h.ids, Or.inl ⟨rfl, trivial, hperm⟩⟩ hleaves rfl
  · rw [if_neg hsubscribed]
    have hunserved : i.peer.subscriptionFor leaf ∉ i.peer.subscriptions.map (·.1) :=
      fun hmem => hsubscribed ((Peer.hasSubscription_iff _).2 hmem)
    exact ⟨⟨h.concordant, h.ids, Or.inr ⟨rfl, hleaf, hpurpose, hunserved, hperm⟩⟩,
      fun _ => rfl, fun hfails => ⟨hfails, rfl, rfl⟩⟩

/-- The lock goes to a call that untracks: a subscription that is given up still has to be taken
back. -/
theorem grant_untrack (h : Stands i live (.waits (.untrack leaf))) (hfree : i.locked = false) :
    RunsOn i live (.waits (.untrack leaf)) (Call.resume i (.untrack leaf) .locked) := by
  obtain ⟨-, hperm⟩ := h.of_free hfree
  obtain ⟨hconcordant, hsubscriptions⟩ := h.concordant.untrack leaf
  have hleaves := Peer.isLeaf_step (σ := .sealing) h.concordant.consistent (.untrack leaf)
  have hname : ∀ region, (i.peer.untrack leaf).1.regionName region = i.peer.regionName region :=
    Peer.regionName_congr (Peer.identity_step (σ := .sealing) i.peer (.untrack leaf))
  -- What is given up still stands at the transport.
  have hrest : i.peer.registrations.Perm
      ((i.peer.untrack leaf).2.released.toList.map (fun entry =>
        ⟨entry.2, i.peer.regionName entry.1, .discovery⟩) ++ (i.peer.untrack leaf).1.registrations) := by
    simp only [Peer.registrations, hname, ← List.map_append]
    exact hsubscriptions.map _
  rw [Call.resume]
  dsimp only
  cases hreleased : (i.peer.untrack leaf).2.released with
  | none =>
      rw [hreleased] at hrest
      exact .harmless ⟨hconcordant, h.ids, Or.inl ⟨hfree, trivial, hperm.trans hrest⟩⟩ hleaves rfl
  | some released =>
      rw [hreleased] at hrest
      exact .harmless ⟨hconcordant, h.ids, Or.inr ⟨rfl, _, hperm.trans hrest⟩⟩ hleaves rfl

/-- The transport registers a subscription, or refuses. -/
theorem answer_subscribe (h : Stands i live (.waits (.subscribe leaf purpose)))
    {reply : Except TransportError RegistrationId} {signal : Signal} {live' : List Registration}
    (hserve : Registration.serve live (Call.need i (.subscribe leaf purpose)) reply =
      some (signal, live')) :
    Advances i live (.waits (.subscribe leaf purpose)) i live'
      (.heard (.subscribe leaf purpose) signal) := by
  obtain ⟨hlocked, hleaf, hpurpose, hunserved, hperm⟩ := h.owes not_false
  cases reply with
  | ok id =>
      obtain ⟨hfresh, rfl, rfl⟩ := Registration.serve_registration hserve
      have hids : ((live ++ [(⟨id, i.peer.regionName (i.peer.subscriptionFor leaf),
          .discovery⟩ : Registration)]).map (·.id)).Nodup := by
        rw [List.map_append, List.map_singleton, ← List.concat_eq_append]
        exact List.Nodup.concat hfresh h.ids
      refine .harmless ⟨h.concordant, hids, Or.inr ⟨hlocked, hleaf, hpurpose, hunserved, ?_⟩⟩
        (fun _ => rfl) rfl
      exact (List.perm_append_singleton _ _).trans (hperm.cons _)
  | error e =>
      cases hserve
      exact ⟨⟨h.concordant, h.ids, Or.inr ⟨hlocked, hpurpose, hperm⟩⟩, fun _ => rfl,
        fun hfails => ⟨hfails, rfl, rfl⟩⟩

/-- The transport takes back a registration that stands. -/
theorem answer_unsubscribe {id : RegistrationId} (h : Stands i live (.waits (.unsubscribe id)))
    {reply : Except TransportError RegistrationId} {signal : Signal} {live' : List Registration}
    (hserve : Registration.serve live (Call.need i (.unsubscribe id)) reply =
      some (signal, live')) :
    Advances i live (.waits (.unsubscribe id)) i live' (.heard (.unsubscribe id) signal) := by
  obtain ⟨hlocked, name, hperm⟩ := h.owes not_false
  have hstands : id ∈ live.map (·.id) :=
    List.mem_map.2 ⟨_, hperm.mem_iff.2 List.mem_cons_self, rfl⟩
  rw [Call.need, Registration.serve_removal hstands] at hserve
  cases hserve
  have hleft := Registration.perm_of_removal h.ids hperm
  exact .harmless ⟨h.concordant, h.ids.sublist (List.filter_sublist.map _), Or.inr ⟨hlocked, hleft⟩⟩
    (fun _ => rfl) rfl

/-- The call notes its registration and marks the leaf. -/
theorem resume_registered {id : RegistrationId}
    (h : Stands i live (.heard (.subscribe leaf purpose) (.registered (.ok id)))) :
    RunsOn i live (.heard (.subscribe leaf purpose) (.registered (.ok id)))
      (Call.resume i (.subscribe leaf purpose) (.registered (.ok id))) := by
  obtain ⟨-, hleaf, hpurpose, hunserved, hperm⟩ := h.owes not_false
  have hnoted := Peer.subscribe_of_not_mem hunserved id
  have hleaf' : (i.peer.subscribe (i.peer.subscriptionFor leaf) id).octree.isLeaf leaf = true :=
    hleaf
  obtain ⟨after, htrack, hmark⟩ := Call.markTracked_eq
    (i := { i with peer := i.peer.subscribe (i.peer.subscriptionFor leaf) id }) hleaf' hpurpose
  obtain ⟨hregistrations, hleaves⟩ := Peer.registrations_track htrack
  have hkeyed : ((i.peer.subscriptions ++ [(i.peer.subscriptionFor leaf, id)]).map (·.1)).Nodup := by
    rw [List.map_append, List.map_singleton, ← List.concat_eq_append]
    exact List.Nodup.concat hunserved h.concordant.keyed
  have hconcordant : after.Concordant := by
    dsimp only at htrack
    rw [hnoted] at htrack
    refine h.concordant.track hkeyed ?_ htrack
    intro region
    rw [List.map_append, List.mem_append, List.map_singleton, List.mem_singleton]
  have hstanding : live.Perm after.registrations := by
    rw [hregistrations]
    dsimp only
    rw [hnoted, Peer.registrations, List.map_append]
    exact hperm.trans (List.perm_append_singleton _ _).symm
  rw [Call.resume, hmark]
  exact .harmless ⟨hconcordant, h.ids, Or.inl ⟨rfl, trivial, hstanding⟩⟩ hleaves rfl

/-- The call gives the lock back, and only a host hears of the refusal. -/
theorem resume_refused {e : TransportError}
    (h : Stands i live (.heard (.subscribe leaf purpose) (.registered (.error e)))) :
    RunsOn i live (.heard (.subscribe leaf purpose) (.registered (.error e)))
      (Call.resume i (.subscribe leaf purpose) (.registered (.error e))) := by
  obtain ⟨-, hpurpose, hperm⟩ := h.owes not_false
  rw [Call.resume, Call.trackEnded_error hpurpose]
  refine ⟨⟨h.concordant, h.ids, Or.inl ⟨rfl, trivial, hperm⟩⟩, fun _ => rfl, ?_⟩
  intro hfails
  by_cases hhost : purpose = .host
  · exact ⟨decide_eq_true hhost, rfl, rfl⟩
  · rw [if_neg hhost] at hfails
    cases hfails

theorem resume_removed {id : RegistrationId}
    (h : Stands i live (.heard (.unsubscribe id) (.removed (.ok ())))) :
    RunsOn i live (.heard (.unsubscribe id) (.removed (.ok ())))
      (Call.resume i (.unsubscribe id) (.removed (.ok ()))) := by
  obtain ⟨-, hperm⟩ := h.owes not_false
  exact .harmless ⟨h.concordant, h.ids, Or.inl ⟨rfl, trivial, hperm⟩⟩ (fun _ => rfl) rfl

theorem grant {call : Call} (h : Stands i live (.waits call)) (hfree : i.locked = false) :
    RunsOn i live (.waits call) (call.resume i .locked) := by
  have hidle := (h.of_free hfree).1
  cases call with
  | track leaf purpose => exact h.grant_track hfree
  | untrack leaf => exact h.grant_untrack hfree
  | subscribe leaf purpose => exact hidle.elim
  | unsubscribe id => exact hidle.elim
  | announce => exact hidle.elim
  | withdraw id reason => exact hidle.elim
  | stop => exact hidle.elim
  | clear id rest => exact hidle.elim
  | retire id => exact hidle.elim

theorem answer {call : Call} (h : Stands i live (.waits call))
    {reply : Except TransportError RegistrationId} {signal : Signal} {live' : List Registration}
    (hserve : Registration.serve live (call.need i) reply = some (signal, live')) :
    Advances i live (.waits call) i live' (.heard call signal) := by
  cases call with
  | track leaf purpose => cases hserve
  | untrack leaf => cases hserve
  | subscribe leaf purpose => exact h.answer_subscribe hserve
  | unsubscribe id => exact h.answer_unsubscribe hserve
  | announce => exact (h.owes not_false).2.elim
  | withdraw id reason => exact (h.owes not_false).2.elim
  | stop => exact (h.owes not_false).2.elim
  | clear id rest => exact (h.owes not_false).2.elim
  | retire id => exact (h.owes not_false).2.elim

theorem resume {call : Call} {signal : Signal} (h : Stands i live (.heard call signal)) :
    RunsOn i live (.heard call signal) (call.resume i signal) := by
  -- A call that has heard something holds the lock, and only three answers leave it in order.
  have howes := (h.owes not_false).2
  unfold Slot.Owes at howes
  split at howes
  · next heq => cases heq
  · next heq =>
      cases heq
      exact h.resume_registered
  · next heq =>
      cases heq
      exact h.resume_refused
  · next heq => cases heq
  · next heq =>
      cases heq
      exact h.resume_removed
  · cases howes

/-- What a turn can do. -/
theorem next (h : Stands i live slot) {turn : Turn} {i' : Instance} {live' : List Registration}
    {slot' : Slot} (hnext : slot.next i live turn = some (i', live', slot')) :
    Advances i live slot i' live' slot' := by
  unfold Slot.next at hnext
  split at hnext
  · split at hnext
    · next hpossible =>
        cases hnext
        exact h.grant hpossible.2
    · cases hnext
  · obtain ⟨⟨signal, served⟩, hserve, heq⟩ := Option.map_eq_some_iff.1 hnext
    cases heq
    exact h.answer hserve
  · cases hnext
    exact h.resume
  · cases hnext

end Stands

/-- A call that does not hold the lock can do nothing while another one does. -/
theorem Slot.Idle.next_eq_none {i : Instance} {slot : Slot} {t : Octree} (h : slot.Idle t)
    (hlocked : i.locked = true) (live : List Registration) (turn : Turn) :
    slot.next i live turn = none := by
  unfold Slot.next
  split
  · rw [if_neg (by simp [hlocked])]
  · next call reply =>
      unfold Slot.Idle at h
      split at h
      · next heq =>
          cases heq
          rfl
      · next heq =>
          cases heq
          rfl
      · next heq => cases heq
      · cases h
  · cases h
  · rfl

end RegionSync
