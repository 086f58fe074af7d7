import RegionSync.Proofs.Peer.Sweep
import RegionSync.Proofs.Position.Window

/-!
The way of a discovery request. A subscription stands some levels above its leaf, and a request stands
at a leaf or at the parent of several, so the name that is subscribed to and the name of the request are
made in different places. They fit: whoever tracks a leaf gets each request that asks about it.
-/

namespace RegionSync

namespace RegionPath

variable {p q : RegionPath}

theorem contains_iff : p.contains q = true ↔ p.digits <+: q.digits :=
  List.isPrefixOf_iff_prefix

theorem contains_ancestor (p : RegionPath) (levels : Nat) : (p.ancestor levels).contains p = true :=
  contains_iff.2 (List.take_prefix ..)

/-- One level above a child is its parent. -/
theorem ancestor_child (parent : RegionPath) (i : OctantIndex) (levels : Nat) :
    (parent.child i).ancestor (levels + 1) = parent.ancestor levels := by
  have hdepth : (parent.child i).depth = parent.depth + 1 := List.length_append
  rw [ancestor, hdepth, Nat.add_sub_add_right]
  exact congrArg RegionPath.mk (List.take_append_of_le_length (Nat.sub_le ..))

end RegionPath

namespace Config

/-- A checked configuration that asks about siblings together has its subscriptions above the leaves. -/
theorem levelsUp_pos_of_validate {c : Config} (h : c.validate = .ok ())
    (hbatched : c.batchSiblings = true) : 0 < c.levelsUp := by
  unfold validate at h
  obtain ⟨_, -, h⟩ := ok_of_bind h
  obtain ⟨_, -, h⟩ := ok_of_bind h
  obtain ⟨_, -, h⟩ := ok_of_bind h
  obtain ⟨_, -, h⟩ := ok_of_bind h
  obtain ⟨_, hbatch, -⟩ := ok_of_bind h
  have hbatch := not_of_refuseIf hbatch
  rw [hbatched, Bool.true_and, beq_eq_false_iff_ne] at hbatch
  exact Nat.pos_of_ne_zero hbatch

end Config

namespace Query

/-- The name of a region stands before the names of all queries about regions in it. -/
theorem covers_name {broadcast : Name} {region : RegionPath} {q : Query}
    (h : region.contains q.region = true) : (regionName broadcast region).covers (q.name broadcast) = true := by
  rw [Name.covers, List.isPrefixOf_iff_prefix, regionName_eq, name_eq]
  apply (List.prefix_append_right_inj _).2
  exact ((RegionPath.contains_iff.1 h).map digitComponent).trans (List.prefix_append ..)

end Query

namespace Peer

open Discovery (Target)

variable {σ : Scheme} {peer asker tracker : Peer} {leaf : RegionPath} {target : Target}

theorem isRoot_of_mem_tracked (h : peer.Reachable σ) (hleaf : leaf ∈ peer.tracked) :
    leaf.isRoot = false :=
  h.isRoot_of_isLeaf (h.sweeping.leaf leaf ((h.sweeping.swept leaf).1 hleaf))

/-- Either way a sweep asks about each tracked leaf once. -/
theorem perm_sweepTargets (h : peer.Reachable σ) :
    (peer.sweepTargets.flatMap Target.regions).Perm peer.tracked := by
  unfold sweepTargets
  split
  · exact (groups_foldl fun leaf => isRoot_of_mem_tracked h).perm h.sweeping.nodup
  · rw [List.flatMap_map]
    exact .of_eq (List.flatMap_singleton' _)

/-- The subscription for a leaf stands at or above the region of the request that asks about it: the
leaf itself, or its parent where the check lets siblings be asked about together. -/
theorem contains_queryFor (h : peer.Reachable σ) (t : Octree) (htarget : target ∈ peer.sweepTargets)
    (hleaf : leaf ∈ target.regions) :
    (peer.subscriptionFor leaf).contains (Discovery.queryFor t target).region = true := by
  unfold sweepTargets at htarget
  split at htarget
  · next hbatched =>
      have hroots : ∀ leaf ∈ peer.tracked, leaf.isRoot = false := fun _ => isRoot_of_mem_tracked h
      have hgroups := groups_foldl hroots
      obtain ⟨parent, children, rfl, -, -⟩ := hgroups.siblings target htarget
      obtain ⟨i, -, rfl⟩ := List.mem_map.1 hleaf
      obtain ⟨levels, hlevels⟩ := Nat.exists_eq_add_of_lt
        (Config.levelsUp_pos_of_validate h.made.1 hbatched)
      rw [subscriptionFor, hlevels, Nat.zero_add, RegionPath.ancestor_child]
      exact RegionPath.contains_ancestor parent levels
  · obtain ⟨path, -, rfl⟩ := List.mem_map.1 htarget
    rw [List.mem_singleton.1 hleaf]
    exact RegionPath.contains_ancestor path _

/-- Of two peers with one configuration, the first asks about each of its tracked leaves once. The request
that asks about a leaf stands under the name that the second subscribes to when it tracks the leaf, and
the second reads in it one claim for the leaf: the digest that the first holds. -/
theorem sweep_reaches_trackers (hasker : asker.Reachable σ) (htracker : tracker.Reachable σ)
    (hconfig : tracker.config = asker.config) :
    (asker.sweepTargets.flatMap Target.regions).Perm asker.tracked ∧
    ∀ target ∈ asker.sweepTargets, ∀ leaf ∈ target.regions,
      (tracker.regionName (tracker.subscriptionFor leaf)).covers
        (asker.discoveryRequest target).name = true ∧
      ∃ query, Query.ofName tracker.broadcast (asker.discoveryRequest target).name = .ok query ∧
        query.claims.filter (fun claimed => claimed.1 == leaf) =
          [(leaf, Discovery.claim asker.octree leaf)] := by
  have hbroadcast : tracker.broadcast = asker.broadcast := by
    have hname := htracker.made.2.2.1
    rw [hconfig, hasker.made.2.2.1] at hname
    exact (Except.ok.inj hname).symm
  have hperm := perm_sweepTargets hasker
  refine ⟨hperm, fun target htarget leaf hleaf => ⟨?_, ?_⟩⟩
  · have hserved : tracker.subscriptionFor leaf = asker.subscriptionFor leaf := by
      rw [subscriptionFor, subscriptionFor, hconfig]
    rw [hserved, regionName, hbroadcast]
    exact Query.covers_name (contains_queryFor hasker asker.octree htarget hleaf)
  · have honce : target.regions.count leaf = 1 := by
      have hnodup := hperm.nodup_iff.2 hasker.sweeping.nodup
      exact List.count_eq_one_of_mem ((List.nodup_flatMap.1 hnodup).1 target htarget) hleaf
    refine ⟨Discovery.queryFor asker.octree target, ?_, ?_⟩
    · rw [hbroadcast]
      exact Query.ofName_name (Discovery.writable_queryFor asker.octree target)
    · rw [Discovery.claims_queryFor, List.filter_map]
      change (target.regions.filter (· == leaf)).map _ = _
      rw [List.filter_beq, honce]
      rfl

/-- Both track a leaf; the request about it asks about another leaf too, and stands at their parent. -/
theorem sweep_reaches_bob : ∃ (alice bob : Peer) (query : Query),
    alice.Reachable .sealing ∧ bob.Reachable .sealing ∧ bob.config = alice.config ∧
    bob.isTracked ⟨[0, 3]⟩ = true ∧ bob.subscriptionFor ⟨[0, 3]⟩ = ⟨[0]⟩ ∧
    alice.sweepTargets = [.siblings ⟨[0]⟩ [5, 3]] ∧
    (bob.regionName ⟨[0]⟩).covers (alice.discoveryRequest (.siblings ⟨[0]⟩ [5, 3])).name = true ∧
    Query.ofName bob.broadcast (alice.discoveryRequest (.siblings ⟨[0]⟩ [5, 3])).name = .ok query ∧
    query.claims.filter (fun claimed => claimed.1 == ⟨[0, 3]⟩) =
      [(⟨[0, 3]⟩, Discovery.claim alice.octree ⟨[0, 3]⟩)] := by
  let config : Config :=
    { hub := "/hub", broadcast := "/all", depth := 2, worldBits := 2, batchSiblings := true }
  have hmade : (made? config "alice" ⟨.zero, .zero, .zero⟩ []).any (fun alice =>
      (made? config "bob" ⟨.zero, .zero, .zero⟩ []).any fun bob =>
        let asker := alice.run .sealing [.track ⟨[0, 5]⟩, .track ⟨[0, 3]⟩]
        let tracker := bob.run .sealing [.track ⟨[0, 3]⟩]
        decide (tracker.config = asker.config ∧ tracker.isTracked ⟨[0, 3]⟩ = true ∧
          tracker.subscriptionFor ⟨[0, 3]⟩ = ⟨[0]⟩ ∧
          asker.sweepTargets = [.siblings ⟨[0]⟩ [5, 3]])) = true := by
    decide +kernel
  obtain ⟨alice, halice, hmade⟩ := exists_make hmade
  obtain ⟨bob, hbob, hsweep⟩ := exists_make hmade
  obtain ⟨hconfig, htracked, hserved, htargets⟩ := of_decide_eq_true hsweep
  have hasker : (alice.run .sealing [.track ⟨[0, 5]⟩, .track ⟨[0, 3]⟩]).Reachable .sealing :=
    ⟨_, _, _, _, alice, _, halice, rfl⟩
  have htracker : (bob.run .sealing [.track ⟨[0, 3]⟩]).Reachable .sealing :=
    ⟨_, _, _, _, bob, _, hbob, rfl⟩
  obtain ⟨-, hreach⟩ := sweep_reaches_trackers hasker htracker hconfig
  obtain ⟨hcovers, query, hread, hclaims⟩ := hreach (.siblings ⟨[0]⟩ [5, 3])
    (htargets ▸ List.mem_singleton_self _) ⟨[0, 3]⟩ (by decide)
  rw [hserved] at hcovers
  exact ⟨_, _, query, hasker, htracker, hconfig, htracked, hserved, htargets, hcovers, hread, hclaims⟩

end Peer

end RegionSync
