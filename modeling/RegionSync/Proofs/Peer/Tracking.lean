import RegionSync.Proofs.Peer.Change

/-!
What a peer tracks, in its three records: the marks of the octree, the leaves that it sweeps, and the
subscriptions. Tracking a leaf under a standing subscription and no longer tracking it keep the three
together; everything else that a peer does leaves them alone.
-/

namespace RegionSync.Peer

variable {σ : Scheme} {peer after : Peer} {leaf p : RegionPath} {operation : Operation}

/-- The operation changes what is tracked or subscribed to. -/
def Operation.retracks : Operation → Bool
  | .track _ => true
  | .untrack _ => true
  | .subscribe _ _ => true
  | .releaseAll => true
  | _ => false

/-- What is swept is what is tracked: only leaves are, each is swept once. -/
structure Sweeping (peer : Peer) : Prop where
  consistent : peer.Consistent
  leaf : ∀ p, peer.isTracked p = true → peer.octree.isLeaf p = true
  nodup : peer.tracked.Nodup
  swept : ∀ p, p ∈ peer.tracked ↔ peer.isTracked p = true

/-- The records of what is tracked agree: only leaves are, each is swept once, and the subscriptions
are those that they need. -/
structure Concordant (peer : Peer) : Prop where
  consistent : peer.Consistent
  leaf : ∀ p, peer.isTracked p = true → peer.octree.isLeaf p = true
  nodup : peer.tracked.Nodup
  swept : ∀ p, p ∈ peer.tracked ↔ peer.isTracked p = true
  keyed : (peer.subscriptions.map (·.1)).Nodup
  served : ∀ region, region ∈ peer.subscriptions.map (·.1) ↔
    ∃ p ∈ peer.tracked, peer.subscriptionFor p = region

theorem Concordant.sweeping (h : peer.Concordant) : peer.Sweeping :=
  ⟨h.consistent, h.leaf, h.nodup, h.swept⟩

/-! Operations that leave the records alone. -/

theorem Keeps.records (h : Keeps peer after) :
    after.tracked = peer.tracked ∧ after.subscriptions = peer.subscriptions ∧
      ∀ p, after.isTracked p = peer.isTracked p := by
  obtain ⟨players, octree, rfl, hkept⟩ := h
  exact ⟨rfl, rfl, hkept⟩

theorem records_relist (peer : Peer) (leaf : RegionPath) :
    (peer.relist leaf).2.tracked = peer.tracked ∧
      (peer.relist leaf).2.subscriptions = peer.subscriptions ∧
      ∀ p, (peer.relist leaf).2.isTracked p = peer.isTracked p := by
  rcases relist_cases peer leaf with ⟨octree, hadd, heq⟩ | heq
  · rw [heq]
    exact ⟨rfl, rfl, (Octree.frame_of_move hadd).2.1⟩
  · rw [heq]
    exact ⟨rfl, rfl, Octree.isTracked_removeName peer.octree _ _⟩

theorem records_publish (peer : Peer) : peer.publish.peer.tracked = peer.tracked ∧
    peer.publish.peer.subscriptions = peer.subscriptions ∧
      ∀ p, peer.publish.peer.isTracked p = peer.isTracked p := by
  unfold publish
  split
  · exact ⟨rfl, rfl, fun _ => rfl⟩
  · dsimp only
    split
    · exact ⟨rfl, rfl, fun _ => rfl⟩
    · split
      · exact ⟨rfl, rfl, fun _ => rfl⟩
      · exact records_relist { peer with self := _ } _

theorem records_step (peer : Peer) (h : operation.retracks = false) :
    (peer.step σ operation).1.tracked = peer.tracked ∧
      (peer.step σ operation).1.subscriptions = peer.subscriptions ∧
      ∀ p, (peer.step σ operation).1.isTracked p = peer.isTracked p := by
  cases operation with
  | moveTo position =>
      simp only [step, moveTo]
      split
      · next hok =>
          split at hok
          · cases hok
            exact ⟨rfl, rfl, fun _ => rfl⟩
          · cases hok
      · exact ⟨rfl, rfl, fun _ => rfl⟩
  | publish => exact records_publish peer
  | learn response => exact (keeps_learn peer response).records
  | polls => exact ⟨rfl, rfl, fun _ => rfl⟩
  | hear name response => exact (keeps_hear peer name response).records
  | miss name => exact (keeps_miss peer name).records
  | tagRequests => exact ⟨rfl, rfl, fun _ => rfl⟩
  | track leaf => cases h
  | untrack leaf => cases h
  | subscribe region id => cases h
  | releaseAll => cases h

theorem isLeaf_step (hconsistent : peer.Consistent) (operation : Operation) (p : RegionPath) :
    (peer.step σ operation).1.octree.isLeaf p = peer.octree.isLeaf p := by
  have hgeometry : (peer.step σ operation).1.geometry = peer.geometry :=
    congrArg Identity.geometry (identity_step peer operation)
  apply Octree.isLeaf_congr
  rw [(hconsistent.step operation).geometry, hgeometry, hconsistent.geometry]

theorem subscriptionFor_congr (h : after.identity = peer.identity) (p : RegionPath) :
    after.subscriptionFor p = peer.subscriptionFor p := by
  have hconfig : after.config = peer.config := congrArg Identity.config h
  rw [subscriptionFor, subscriptionFor, hconfig]

theorem regionName_congr (h : after.identity = peer.identity) (region : RegionPath) :
    after.regionName region = peer.regionName region := by
  have hbroadcast : after.broadcast = peer.broadcast := congrArg Identity.broadcast h
  rw [regionName, regionName, hbroadcast]

theorem Sweeping.make {config : Config} {id : String} {position : Point} {secret : Bytes}
    (h : Peer.make config id position secret = .ok (.ok peer)) : peer.Sweeping := by
  obtain ⟨-, -, -, -, -, hadd, hpeer⟩ := make_eq_ok h
  have huntracked : ∀ p, peer.isTracked p = false := by
    intro p
    have hempty : (Octree.empty peer.geometry).contentAt p = .none :=
      Octant.contentAt_empty p.digits
    rw [isTracked, Octree.isTracked_addName hadd, Octree.isTracked_eq, hempty]
    rfl
  have htracked : peer.tracked = [] := by rw [hpeer]
  refine ⟨Consistent.make h, ?_, ?_, ?_⟩
  · intro p hp
    rw [huntracked] at hp
    cases hp
  · rw [htracked]
    exact List.nodup_nil
  · intro p
    rw [htracked, huntracked]
    simp

theorem Sweeping.step_of_keeps (h : peer.Sweeping) (hkeeps : operation.retracks = false) :
    (peer.step σ operation).1.Sweeping := by
  obtain ⟨htracked, -, hmarks⟩ := records_step (σ := σ) peer hkeeps
  refine ⟨h.consistent.step operation, ?_, ?_, ?_⟩
  · intro p hp
    rw [isLeaf_step h.consistent]
    rw [hmarks] at hp
    exact h.leaf p hp
  · rw [htracked]
    exact h.nodup
  · intro p
    rw [htracked, hmarks]
    exact h.swept p

namespace Concordant

theorem make {config : Config} {id : String} {position : Point} {secret : Bytes}
    (h : Peer.make config id position secret = .ok (.ok peer)) : peer.Concordant := by
  obtain ⟨hconsistent, hleaf, hnodup, hswept⟩ := Sweeping.make h
  obtain ⟨-, -, -, -, -, -, hpeer⟩ := make_eq_ok h
  have htracked : peer.tracked = [] := by rw [hpeer]
  have hsubscriptions : peer.subscriptions = [] := by rw [hpeer]
  refine ⟨hconsistent, hleaf, hnodup, hswept, ?_, ?_⟩
  · rw [hsubscriptions]
    exact List.nodup_nil
  · intro region
    rw [hsubscriptions, htracked]
    simp

theorem step (h : peer.Concordant) (hkeeps : operation.retracks = false) :
    (peer.step σ operation).1.Concordant := by
  obtain ⟨htracked, hsubscriptions, -⟩ := records_step (σ := σ) peer hkeeps
  obtain ⟨hconsistent, hleaf, hnodup, hswept⟩ := h.sweeping.step_of_keeps (σ := σ) hkeeps
  refine ⟨hconsistent, hleaf, hnodup, hswept, ?_, ?_⟩
  · rw [hsubscriptions]
    exact h.keyed
  · intro region
    rw [hsubscriptions, htracked, h.served]
    apply exists_congr
    intro p
    rw [subscriptionFor_congr (identity_step peer operation)]

/-- The swept leaves are the tracked leaves of the octree. -/
theorem perm (h : peer.Concordant) : peer.tracked.Perm peer.octree.trackedLeaves := by
  apply (List.perm_ext_iff_of_nodup h.nodup
    (Octree.nodup_trackedLeaves h.consistent.wellFormed)).2
  intro p
  rw [h.swept, Octree.mem_trackedLeaves h.consistent.wellFormed]
  exact ⟨fun hp => ⟨hp, h.leaf p hp⟩, And.left⟩

end Concordant

/-! A leaf is tracked. -/

theorem hasSubscription_iff (region : RegionPath) :
    peer.hasSubscription region = true ↔ region ∈ peer.subscriptions.map (·.1) := by
  simp [hasSubscription]

/-- A subscription that is new is noted last. -/
theorem subscribe_of_not_mem {region : RegionPath}
    (h : region ∉ peer.subscriptions.map (·.1)) (id : RegistrationId) :
    peer.subscribe region id =
      { peer with subscriptions := peer.subscriptions ++ [(region, id)] } := by
  have hothers : peer.subscriptions.filter (·.1 != region) = peer.subscriptions := by
    rw [List.filter_eq_self]
    intro x hx
    rw [bne_iff_ne]
    rintro rfl
    exact h (List.mem_map_of_mem hx)
  rw [subscribe, hothers]

theorem exists_track (hleaf : peer.octree.isLeaf leaf = true) :
    ∃ octree, peer.octree.track leaf = .ok octree ∧ peer.track leaf = .ok { peer with
      octree
      tracked := if peer.tracked.contains leaf then peer.tracked else peer.tracked ++ [leaf] } := by
  have hdepth := Octree.isLeaf_iff.1 hleaf
  have htrack := Octree.track_eq_ok_iff.2 ⟨Nat.le_of_eq hdepth, rfl⟩
  refine ⟨_, htrack, ?_⟩
  rw [track, if_pos hleaf, htrack]
  rfl

theorem mem_sweepAlso {leaves : List RegionPath} :
    (p ∈ if leaves.contains leaf then leaves else leaves ++ [leaf]) ↔ p ∈ leaves ∨ p = leaf := by
  by_cases hmem : leaf ∈ leaves
  · rw [if_pos (List.contains_iff_mem.2 hmem)]
    refine ⟨Or.inl, ?_⟩
    rintro (hp | rfl)
    · exact hp
    · exact hmem
  · rw [if_neg (by simpa using hmem), List.mem_append, List.mem_singleton]

theorem nodup_sweepAlso {leaves : List RegionPath} (h : leaves.Nodup) (leaf : RegionPath) :
    (if leaves.contains leaf then leaves else leaves ++ [leaf]).Nodup := by
  by_cases hmem : leaf ∈ leaves
  · rw [if_pos (List.contains_iff_mem.2 hmem)]
    exact h
  · rw [if_neg (by simpa using hmem), ← List.concat_eq_append]
    exact List.Nodup.concat hmem h

theorem Sweeping.track (h : peer.Sweeping) (htrack : peer.track leaf = .ok after) :
    after.Sweeping ∧ ∀ p, p ∈ after.tracked ↔ p ∈ peer.tracked ∨ p = leaf := by
  have hconsistent := h.consistent.track htrack
  have hleaf : peer.octree.isLeaf leaf = true := by
    unfold Peer.track at htrack
    split at htrack
    · assumption
    · cases htrack
  obtain ⟨octree, hoctree, hafter⟩ := exists_track hleaf
  rw [htrack, Except.ok.injEq] at hafter
  subst hafter
  have hmarks : ∀ p, octree.isTracked p = true ↔ peer.octree.isTracked p = true ∨ p = leaf :=
    Octree.isTracked_track hoctree
  have hgeometry : octree.geometry = peer.octree.geometry := by
    rw [(Octree.track_eq_ok_iff.1 hoctree).2]
    rfl
  refine ⟨⟨hconsistent, ?_, nodup_sweepAlso h.nodup leaf, ?_⟩, fun p => mem_sweepAlso⟩
  · intro p hp
    rw [Octree.isLeaf_congr hgeometry]
    rcases (hmarks p).1 hp with hp | rfl
    · exact h.leaf p hp
    · exact hleaf
  · intro p
    refine mem_sweepAlso.trans (Iff.trans ?_ (hmarks p).symm)
    rw [h.swept]
    rfl

/-- Tracking a leaf whose subscription stands keeps the records together. -/
theorem Concordant.track (h : peer.Concordant)
    {subscriptions : List (RegionPath × RegistrationId)}
    (hkeyed : (subscriptions.map (·.1)).Nodup)
    (hserved : ∀ region, region ∈ subscriptions.map (·.1) ↔
      region ∈ peer.subscriptions.map (·.1) ∨ region = peer.subscriptionFor leaf)
    (htrack : ({ peer with subscriptions } : Peer).track leaf = .ok after) : after.Concordant := by
  have hbefore : ({ peer with subscriptions } : Peer).Sweeping :=
    ⟨h.consistent.congr rfl rfl rfl rfl rfl h.consistent.alive, h.leaf, h.nodup, h.swept⟩
  obtain ⟨⟨hconsistent, hleaf, hnodup, hswept⟩, hmem⟩ := hbefore.track htrack
  obtain ⟨octree, tracked, -, rfl⟩ := exists_of_track htrack
  refine ⟨hconsistent, hleaf, hnodup, hswept, hkeyed, ?_⟩
  intro region
  rw [hserved, h.served]
  constructor
  · rintro (⟨p, hp, hregion⟩ | hregion)
    · exact ⟨p, (hmem p).2 (Or.inl hp), hregion⟩
    · exact ⟨leaf, (hmem leaf).2 (Or.inr rfl), hregion.symm⟩
  · rintro ⟨p, hp, hregion⟩
    rcases (hmem p).1 hp with hp | rfl
    · exact Or.inl ⟨p, hp, hregion⟩
    · exact Or.inr hregion.symm

/-! A leaf is no longer tracked. -/

/-- A leaf lies in the region that serves another one if the same region serves it. -/
theorem contains_subscriptionFor (hleaf : peer.octree.isLeaf leaf = true)
    (hp : peer.octree.isLeaf p = true) : (peer.subscriptionFor leaf).contains p = true ↔
      peer.subscriptionFor p = peer.subscriptionFor leaf := by
  have hdepth := Octree.isLeaf_iff.1 hleaf
  have hdepth' := Octree.isLeaf_iff.1 hp
  rw [RegionPath.contains, List.isPrefixOf_iff_prefix, List.prefix_iff_eq_take]
  simp only [subscriptionFor, RegionPath.ancestor, RegionPath.depth, RegionPath.mk.injEq,
    List.length_take, hdepth, hdepth', Nat.min_eq_left (Nat.sub_le _ _)]
  exact eq_comm

/-- The subscription that is given up, if there is one, and those that stay. -/
theorem release_perm (peer : Peer) (hkeyed : (peer.subscriptions.map (·.1)).Nodup)
    (region : RegionPath) : peer.subscriptions.Perm
      ((peer.release region).2.toList ++ (peer.release region).1.subscriptions) := by
  rw [release]
  dsimp only
  generalize peer.subscriptions = subscriptions at hkeyed
  induction subscriptions with
  | nil => exact .nil
  | cons x rest ih =>
      obtain ⟨hx, hrest⟩ := List.nodup_cons.1 hkeyed
      by_cases hregion : x.1 = region
      · have hothers : rest.filter (·.1 != region) = rest := by
          rw [List.filter_eq_self]
          intro y hy
          rw [bne_iff_ne]
          intro heq
          exact hx (List.mem_map.2 ⟨y, hy, heq.trans hregion.symm⟩)
        rw [List.find?_cons_of_pos (by simp [hregion]), List.filter_cons_of_neg (by simp [hregion]),
          hothers]
        exact .refl _
      · rw [List.find?_cons_of_neg (by simp [hregion]), List.filter_cons_of_pos (by simp [hregion])]
        exact ((ih hrest).cons x).trans List.perm_middle.symm

theorem mem_release_iff (peer : Peer) (served region : RegionPath) :
    region ∈ (peer.release served).1.subscriptions.map (·.1) ↔
      region ∈ peer.subscriptions.map (·.1) ∧ region ≠ served := by
  simp only [release, List.mem_map, List.mem_filter, bne_iff_ne]
  constructor
  · rintro ⟨x, ⟨hx, hne⟩, rfl⟩
    exact ⟨⟨x, hx, rfl⟩, hne⟩
  · rintro ⟨⟨x, hx, rfl⟩, hne⟩
    exact ⟨x, ⟨hx, hne⟩, rfl⟩

/-- Other subscriptions than its own do not miss a leaf. -/
theorem exists_served_iff {region : RegionPath} (h : region ≠ peer.subscriptionFor leaf) :
    (∃ p ∈ peer.tracked.filter (· != leaf), peer.subscriptionFor p = region) ↔
      ∃ p ∈ peer.tracked, peer.subscriptionFor p = region := by
  constructor
  · rintro ⟨p, hp, hregion⟩
    exact ⟨p, (List.mem_filter.1 hp).1, hregion⟩
  · rintro ⟨p, hp, rfl⟩
    refine ⟨p, List.mem_filter.2 ⟨hp, ?_⟩, rfl⟩
    rw [bne_iff_ne]
    rintro rfl
    exact h rfl

theorem untrack_of_not_isTracked (h : peer.isTracked leaf = false) :
    peer.untrack leaf = (peer, ⟨none, []⟩) := by
  rw [untrack, if_neg (by simp [h])]

/-- What is left of the peer and what is given up when a tracked leaf is no longer tracked. -/
theorem untrack_cases (hwell : peer.octree.WellFormed) (h : peer.isTracked leaf = true) :
    ∃ players octree, octree.geometry = peer.octree.geometry ∧ octree.WellFormed ∧
      (∀ p, octree.isTracked p = true ↔ peer.octree.isTracked p = true ∧ p ≠ leaf) ∧
      let left : Peer := { peer with
        players, octree
        tracked := peer.tracked.filter (· != leaf) }
      (octree.tracksWithin (peer.subscriptionFor leaf) = true ∧ (peer.untrack leaf).1 = left ∧
          (peer.untrack leaf).2.released = none) ∨
        octree.tracksWithin (peer.subscriptionFor leaf) = false ∧
          (peer.untrack leaf).1 = (left.release (peer.subscriptionFor leaf)).1 ∧
          (peer.untrack leaf).2.released = (left.release (peer.subscriptionFor leaf)).2 := by
  obtain ⟨hwell', hgeometry, hmarks, -⟩ := removeNames_frame (hwell.untrack leaf) leaf
    ((peer.players.filter (·.region == some leaf)).map (·.name))
  refine ⟨peer.players.filter fun r => !(r.region == some leaf), _,
    hgeometry.trans (Octree.geometry_untrack ..), hwell', ?_, ?_⟩
  · intro p
    rw [hmarks, Octree.isTracked_untrack]
  · rw [untrack, if_pos h, List.partition_eq_filter_filter]
    dsimp only
    split
    · next hwithin => exact Or.inl ⟨hwithin, rfl, rfl⟩
    · next hwithin => exact Or.inr ⟨Bool.eq_false_iff.2 hwithin, rfl, rfl⟩

/-- What is left to be swept is what is left marked. -/
theorem Sweeping.still (h : peer.Sweeping) {octree : Octree}
    (hmarks : ∀ p, octree.isTracked p = true ↔ peer.octree.isTracked p = true ∧ p ≠ leaf)
    (p : RegionPath) : p ∈ peer.tracked.filter (· != leaf) ↔ octree.isTracked p = true := by
  rw [List.mem_filter, bne_iff_ne, h.swept, hmarks]
  rfl

theorem Sweeping.untrack (h : peer.Sweeping) (leaf : RegionPath) :
    (peer.untrack leaf).1.Sweeping := by
  by_cases htracked : peer.isTracked leaf = true
  · have hconsistent := h.consistent.untrack leaf
    obtain ⟨players, octree, hgeometry, -, hmarks, hcases⟩ :=
      untrack_cases h.consistent.wellFormed htracked
    have hleaves : ∀ p, octree.isTracked p = true → octree.isLeaf p = true := by
      intro p hp
      rw [Octree.isLeaf_congr hgeometry]
      exact h.leaf p ((hmarks p).1 hp).1
    rcases hcases with ⟨-, hafter, -⟩ | ⟨-, hafter, -⟩
    · rw [hafter] at hconsistent ⊢
      exact ⟨hconsistent, hleaves, h.nodup.filter _, h.still hmarks⟩
    · rw [hafter] at hconsistent ⊢
      exact ⟨hconsistent, hleaves, h.nodup.filter _, h.still hmarks⟩
  · rw [untrack_of_not_isTracked (by simpa using htracked)]
    exact h

theorem Concordant.untrack (h : peer.Concordant) (leaf : RegionPath) :
    (peer.untrack leaf).1.Concordant ∧ peer.subscriptions.Perm
      ((peer.untrack leaf).2.released.toList ++ (peer.untrack leaf).1.subscriptions) := by
  by_cases htracked : peer.isTracked leaf = true
  swap
  · rw [untrack_of_not_isTracked (by simpa using htracked)]
    exact ⟨h, .refl _⟩
  obtain ⟨hconsistent, hleaves, hnodup, hswept⟩ := h.sweeping.untrack leaf
  obtain ⟨players, octree, -, hwell, hmarks, hcases⟩ :=
    untrack_cases h.consistent.wellFormed htracked
  have hserves := (h.served (peer.subscriptionFor leaf)).2 ⟨leaf, (h.swept leaf).2 htracked, rfl⟩
  -- The subscription of the leaf is needed as long as it serves another one.
  have hwithin : octree.tracksWithin (peer.subscriptionFor leaf) = true ↔
      ∃ p ∈ peer.tracked.filter (· != leaf),
        peer.subscriptionFor p = peer.subscriptionFor leaf := by
    rw [Octree.tracksWithin_iff hwell]
    apply exists_congr
    intro p
    rw [h.sweeping.still hmarks]
    apply and_congr_right
    intro hp
    have hpeer : peer.octree.isLeaf p = true := h.leaf p ((hmarks p).1 hp).1
    exact contains_subscriptionFor (h.leaf leaf htracked) hpeer
  rcases hcases with ⟨hneeded, hafter, hreleased⟩ | ⟨hspare, hafter, hreleased⟩
  · rw [hreleased, hafter]
    rw [hafter] at hconsistent hleaves hnodup hswept
    refine ⟨⟨hconsistent, hleaves, hnodup, hswept, h.keyed, ?_⟩, .refl _⟩
    intro region
    by_cases hregion : region = peer.subscriptionFor leaf
    · subst hregion
      exact ⟨fun _ => hwithin.1 hneeded, fun _ => hserves⟩
    · exact (h.served region).trans (exists_served_iff hregion).symm
  · rw [hreleased, hafter]
    rw [hafter] at hconsistent hleaves hnodup hswept
    have hspare : ¬octree.tracksWithin (peer.subscriptionFor leaf) = true := by
      rw [hspare]
      exact Bool.false_ne_true
    refine ⟨⟨hconsistent, hleaves, hnodup, hswept, h.keyed.sublist (List.filter_sublist.map _), ?_⟩,
      release_perm _ h.keyed (peer.subscriptionFor leaf)⟩
    intro region
    refine (mem_release_iff _ _ region).trans ?_
    by_cases hregion : region = peer.subscriptionFor leaf
    · subst hregion
      exact ⟨fun hkept => absurd rfl hkept.2, fun hserved => absurd (hwithin.2 hserved) hspare⟩
    · rw [and_iff_left hregion]
      exact (h.served region).trans (exists_served_iff hregion).symm

/-! Every reachable state. -/

theorem Sweeping.step (h : peer.Sweeping) (operation : Operation) :
    (peer.step σ operation).1.Sweeping := by
  cases hretracks : operation.retracks with
  | false => exact h.step_of_keeps hretracks
  | true =>
      have hconsistent := h.consistent.step (σ := σ) operation
      cases operation with
      | track leaf =>
          simp only [Peer.step]
          split
          · next hok => exact (h.track hok).1
          · exact h
      | untrack leaf => exact h.untrack leaf
      | subscribe region id => exact ⟨hconsistent, h.leaf, h.nodup, h.swept⟩
      | releaseAll => exact ⟨hconsistent, h.leaf, h.nodup, h.swept⟩
      | _ => cases hretracks

theorem Reachable.sweeping (h : peer.Reachable σ) : peer.Sweeping :=
  h.induction (fun _ _ _ _ _ => Sweeping.make) fun _ operation hpeer => hpeer.step operation

end RegionSync.Peer
