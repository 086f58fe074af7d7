import RegionSync.Proofs.Peer.Exchange
import RegionSync.Proofs.Peer.Tracking

/-!
Sweeping by siblings. A sweep asks about the tracked leaves one by one, or about all those below one
region in one request. Either way the requests claim the same digests for the same leaves, so there
is the same to answer.
-/

namespace RegionSync

namespace RegionPath

variable {p : RegionPath}

theorem parent?_child (parent : RegionPath) (i : OctantIndex) :
    (parent.child i).parent? = some parent := by
  simp [parent?, child]

theorem getLast?_child (parent : RegionPath) (i : OctantIndex) :
    (parent.child i).digits.getLast? = some i :=
  List.getLast?_concat

/-- Every region but the root is a child of another one. -/
theorem exists_eq_child (h : p.isRoot = false) :
    ∃ (parent : RegionPath) (i : OctantIndex), p = parent.child i := by
  obtain ⟨digits⟩ := p
  rcases List.eq_nil_or_concat digits with rfl | ⟨digits, i, rfl⟩
  · cases h
  · refine ⟨⟨digits⟩, i, ?_⟩
    rw [child, List.concat_eq_append]

end RegionPath

namespace Discovery

/-- The regions that a target asks about. -/
def Target.regions : Target → List RegionPath
  | .region path => [path]
  | .siblings parent children => children.map parent.child

/-- The region whose children a target asks about. -/
def Target.parent? : Target → Option RegionPath
  | .region _ => none
  | .siblings parent _ => some parent

variable (t : Octree)

theorem writable_queryFor (target : Target) : (queryFor t target).frame.Writable := by
  cases target with
  | region path => trivial
  | siblings parent children =>
      intro entry hentry
      obtain ⟨i, -, rfl⟩ := List.mem_map.1 hentry
      exact ⟨Nat.le_refl 1, (by decide : 1 ≤ 255), fun j _ => Nat.lt_succ_iff.1 j.isLt⟩

/-- The query about a target claims, for each region of it, the digest there. -/
theorem claims_queryFor (target : Target) :
    (queryFor t target).claims = target.regions.map fun region => (region, claim t region) := by
  cases target with
  | region path => rfl
  | siblings parent children =>
      rw [Target.regions, List.map_map]
      exact List.map_map

/-- What is answered hangs on what is claimed. -/
theorem flatMap_answer (queries : List Query) : queries.flatMap (answer t) =
    (queries.flatMap Query.claims).filterMap fun (region, claimed) =>
      if differs t region claimed then listing? t region else none :=
  (List.filterMap_flatMap ..).symm

end Discovery

namespace Peer

open Discovery (Target)

variable {σ : Scheme} {peer : Peer} {leaves : List RegionPath} {p : RegionPath}

/-- The peer with requests for siblings turned on or off. -/
def batching (peer : Peer) (batched : Bool) : Peer :=
  { peer with config := { peer.config with batchSiblings := batched } }

/-- What is read from the names of a sweep's requests, in order. -/
def sweepQueries (peer : Peer) : Except WireError (List Query) :=
  peer.sweepTargets.mapM fun target =>
    Query.ofName peer.broadcast (peer.discoveryRequest target).name

theorem sweepQueries_eq (peer : Peer) :
    peer.sweepQueries = .ok (peer.sweepTargets.map (Discovery.queryFor peer.octree)) := by
  have hread : (fun target => Query.ofName peer.broadcast (peer.discoveryRequest target).name) =
      fun target => Except.ok (Discovery.queryFor peer.octree target) := by
    funext target
    exact Query.ofName_name (Discovery.writable_queryFor peer.octree target)
  rw [sweepQueries, hread]
  exact List.mapM_pure

/-- The places of leaves below a region, in the order of the leaves. -/
def childrenIn (leaves : List RegionPath) (parent : RegionPath) : List OctantIndex :=
  leaves.filterMap fun leaf => if leaf.parent? = some parent then leaf.digits.getLast? else none

theorem childrenIn_concat (leaves : List RegionPath) (p q : RegionPath) (i : OctantIndex) :
    childrenIn (leaves ++ [p.child i]) q = childrenIn leaves q ++ if p = q then [i] else [] := by
  rw [childrenIn, List.filterMap_append]
  congr 1
  by_cases h : p = q
  · simp [RegionPath.parent?_child, RegionPath.getLast?_child, h]
  · simp [RegionPath.parent?_child, h]

theorem childrenIn_eq_nil (h : ∀ leaf ∈ leaves, leaf.parent? ≠ some p) : childrenIn leaves p = [] := by
  rw [childrenIn, List.filterMap_eq_nil_iff]
  intro leaf hleaf
  exact if_neg (h leaf hleaf)

theorem map_childrenIn (h : ∀ leaf ∈ leaves, leaf.isRoot = false) (parent : RegionPath) :
    (childrenIn leaves parent).map parent.child =
      leaves.filter fun leaf => leaf.parent? == some parent := by
  induction leaves using List.reverseRecOn with
  | nil => rfl
  | append_singleton leaves leaf ih =>
      obtain ⟨hleaves, hleaf⟩ := List.forall_mem_append.1 h
      obtain ⟨p, i, rfl⟩ := RegionPath.exists_eq_child (hleaf leaf (List.mem_singleton_self _))
      rw [childrenIn_concat, List.map_append, ih hleaves, List.filter_append]
      congr 1
      by_cases hparent : p = parent
      · simp [RegionPath.parent?_child, hparent]
      · simp [RegionPath.parent?_child, hparent]

/-- Targets that ask about leaves by siblings: each about all leaves below one region, in their
order. -/
structure Groups (leaves : List RegionPath) (targets : List Target) : Prop where
  siblings : ∀ target ∈ targets, ∃ parent children, target = .siblings parent children ∧
    children ≠ [] ∧ children.map parent.child = leaves.filter fun leaf => leaf.parent? == some parent
  /-- No two targets share a parent. -/
  parents : (targets.map Target.parent?).Nodup
  once : ∀ leaf ∈ leaves, ∃! target, target ∈ targets ∧ leaf ∈ target.regions

/-- A leaf joins the target of its parent, or opens one. -/
theorem addSibling_child (parents : List RegionPath) (children : RegionPath → List OctantIndex)
    (p : RegionPath) (i : OctantIndex) :
    addSibling (parents.map fun q => .siblings q (children q)) (p.child i) =
      if p ∈ parents then
        parents.map fun q => .siblings q (if q = p then children q ++ [i] else children q)
      else (parents.map fun q => .siblings q (children q)) ++ [.siblings p [i]] := by
  have hjoins : (parents.any fun q => q == p) = true ↔ p ∈ parents := by
    simp
  simp only [addSibling, RegionPath.parent?_child, RegionPath.getLast?_child, List.any_map,
    Function.comp_def, List.map_map, hjoins]

/-- The targets of a sweep by siblings, in the order of the first leaves below their parents. -/
theorem foldl_addSibling (h : ∀ leaf ∈ leaves, leaf.isRoot = false) :
    ∃ parents : List RegionPath, parents.Nodup ∧
      (∀ p, p ∈ parents ↔ ∃ leaf ∈ leaves, leaf.parent? = some p) ∧
      leaves.foldl addSibling [] = parents.map fun p => .siblings p (childrenIn leaves p) := by
  induction leaves using List.reverseRecOn with
  | nil => exact ⟨[], List.nodup_nil, by simp, rfl⟩
  | append_singleton leaves leaf ih =>
      obtain ⟨hleaves, hleaf⟩ := List.forall_mem_append.1 h
      obtain ⟨p, i, rfl⟩ := RegionPath.exists_eq_child (hleaf leaf (List.mem_singleton_self _))
      obtain ⟨parents, hnodup, hparents, hfold⟩ := ih hleaves
      have hmem : ∀ q, (∃ leaf ∈ leaves ++ [p.child i], leaf.parent? = some q) ↔
          q ∈ parents ∨ p = q := by
        intro q
        rw [hparents]
        simp only [List.mem_append, List.mem_singleton, or_and_right, exists_or, exists_eq_left,
          RegionPath.parent?_child, Option.some.injEq]
      rw [List.foldl_append, hfold, List.foldl_cons, List.foldl_nil, addSibling_child]
      by_cases hold : p ∈ parents
      · refine ⟨parents, hnodup, fun q => ?_, ?_⟩
        · rw [hmem, or_iff_left_of_imp]
          rintro rfl
          exact hold
        · rw [if_pos hold]
          apply List.map_congr_left
          intro q _
          rw [childrenIn_concat]
          by_cases hq : p = q
          · rw [if_pos hq, if_pos hq.symm]
          · rw [if_neg hq, if_neg (Ne.symm hq), List.append_nil]
      · refine ⟨parents ++ [p], ?_, fun q => ?_, ?_⟩
        · rw [← List.concat_eq_append]
          exact List.Nodup.concat hold hnodup
        · rw [hmem, List.mem_append, List.mem_singleton, eq_comm]
        · rw [if_neg hold, List.map_append]
          congr 1
          · apply List.map_congr_left
            intro q hq
            have hne : ¬ p = q := by
              rintro rfl
              exact hold hq
            rw [childrenIn_concat, if_neg hne, List.append_nil]
          · have hnone : childrenIn leaves p = [] := by
              apply childrenIn_eq_nil
              intro leaf hleaf hparent
              exact hold ((hparents p).2 ⟨leaf, hleaf, hparent⟩)
            rw [List.map_singleton, childrenIn_concat, if_pos rfl, hnone, List.nil_append]

theorem groups_foldl (h : ∀ leaf ∈ leaves, leaf.isRoot = false) :
    Groups leaves (leaves.foldl addSibling []) := by
  obtain ⟨parents, hnodup, hparents, hfold⟩ := foldl_addSibling h
  have hregions : ∀ parent, (Target.siblings parent (childrenIn leaves parent)).regions =
      leaves.filter fun leaf => leaf.parent? == some parent :=
    map_childrenIn h
  rw [hfold]
  refine ⟨?_, ?_, ?_⟩
  · intro target htarget
    obtain ⟨parent, hparent, rfl⟩ := List.mem_map.1 htarget
    refine ⟨parent, _, rfl, ?_, map_childrenIn h parent⟩
    obtain ⟨leaf, hleaf, hbelow⟩ := (hparents parent).1 hparent
    have hregion : leaf ∈ (Target.siblings parent (childrenIn leaves parent)).regions := by
      rw [hregions, List.mem_filter, hbelow]
      exact ⟨hleaf, beq_self_eq_true _⟩
    intro hnone
    rw [hnone] at hregion
    cases hregion
  · rw [List.map_map]
    exact hnodup.map fun p q heq => Option.some.inj heq
  · intro leaf hleaf
    obtain ⟨p, i, rfl⟩ := RegionPath.exists_eq_child (h leaf hleaf)
    have hp := (hparents p).2 ⟨_, hleaf, RegionPath.parent?_child p i⟩
    refine ⟨.siblings p (childrenIn leaves p), ⟨List.mem_map.2 ⟨p, hp, rfl⟩, ?_⟩, ?_⟩
    · rw [hregions, List.mem_filter, RegionPath.parent?_child]
      exact ⟨hleaf, beq_self_eq_true _⟩
    · rintro other ⟨hother, hregion⟩
      obtain ⟨q, -, rfl⟩ := List.mem_map.1 hother
      rw [hregions, List.mem_filter, RegionPath.parent?_child, beq_iff_eq, Option.some.injEq] at hregion
      rw [hregion.2]

/-- Together the targets ask about the leaves, each once. -/
theorem Groups.perm {targets : List Target} (h : Groups leaves targets) (hnodup : leaves.Nodup) :
    (targets.flatMap Target.regions).Perm leaves := by
  have hregion : ∀ target ∈ targets, target.regions.Nodup ∧ target.regions ⊆ leaves := by
    intro target htarget
    obtain ⟨parent, children, rfl, -, hchildren⟩ := h.siblings target htarget
    rw [Target.regions, hchildren]
    exact ⟨hnodup.filter _, List.filter_subset_self _⟩
  -- A leaf in two targets would be one that `once` denies, and equal targets would share a parent.
  have hdisjoint : targets.Pairwise (Function.onFun List.Disjoint Target.regions) := by
    apply (List.Nodup.of_map _ h.parents).pairwise_of_forall_ne
    intro target htarget other hother hne leaf hleaf hleaf'
    exact hne ((h.once leaf ((hregion target htarget).2 hleaf)).unique ⟨htarget, hleaf⟩
      ⟨hother, hleaf'⟩)
  apply (List.perm_ext_iff_of_nodup (List.nodup_flatMap.2 ⟨fun target htarget =>
    (hregion target htarget).1, hdisjoint⟩) hnodup).2
  intro leaf
  rw [List.mem_flatMap]
  constructor
  · rintro ⟨target, htarget, hleaf⟩
    exact (hregion target htarget).2 hleaf
  · intro hleaf
    obtain ⟨target, htarget, -⟩ := h.once leaf hleaf
    exact ⟨target, htarget⟩

/-- What a sweep claims are the digests of the regions that it asks about. -/
theorem flatMap_claims (t : Octree) (targets : List Target) :
    (targets.map (Discovery.queryFor t)).flatMap Query.claims =
      (targets.flatMap Target.regions).map fun region => (region, Discovery.claim t region) := by
  rw [List.flatMap_map, List.map_flatMap]
  apply List.flatMap_congr
  intro target _
  exact Discovery.claims_queryFor t target

/-- A sweep by siblings asks about each tracked leaf once, in the target of its parent and in the
order of the single requests. The requests of both sweeps are read, what they claim is the same up to
its order, and so is what any octree has to answer. -/
theorem batched_sweep (h : peer.Reachable σ) :
    (∀ leaf, leaf ∈ peer.tracked ↔ peer.isTracked leaf = true) ∧ peer.tracked.Nodup ∧
    Groups peer.tracked (peer.batching true).sweepTargets ∧
    ∃ single batched, (peer.batching false).sweepQueries = .ok single ∧
      (peer.batching true).sweepQueries = .ok batched ∧
      (batched.flatMap Query.claims).Perm (single.flatMap Query.claims) ∧
      ∀ t : Octree, (batched.flatMap (Discovery.answer t)).Perm
        (single.flatMap (Discovery.answer t)) := by
  obtain ⟨-, hleaf, hnodup, hswept⟩ := h.sweeping
  have hgroups : Groups peer.tracked (peer.batching true).sweepTargets := by
    apply groups_foldl
    intro leaf hmem
    exact h.isRoot_of_isLeaf (hleaf leaf ((hswept leaf).1 hmem))
  have hsingle : (peer.batching false).sweepTargets.flatMap Target.regions = peer.tracked :=
    calc (peer.tracked.map Target.region).flatMap Target.regions
        = peer.tracked.flatMap fun leaf => [leaf] := List.flatMap_map ..
      _ = peer.tracked := List.flatMap_singleton' _
  have hclaims : (((peer.batching true).sweepTargets.map (Discovery.queryFor peer.octree)).flatMap
        Query.claims).Perm
      (((peer.batching false).sweepTargets.map (Discovery.queryFor peer.octree)).flatMap
        Query.claims) := by
    rw [flatMap_claims, flatMap_claims, hsingle]
    exact (hgroups.perm hnodup).map _
  refine ⟨hswept, hnodup, hgroups, _, _, sweepQueries_eq _, sweepQueries_eq _, hclaims, ?_⟩
  intro t
  rw [Discovery.flatMap_answer, Discovery.flatMap_answer]
  exact hclaims.filterMap _

/-- Three leaves below two regions: two requests claim what three do. -/
theorem batched_sweep_three_leaves : ∃ (peer : Peer) (single batched : List Query),
    peer.Reachable .sealing ∧
    (peer.batching false).sweepTargets = [.region ⟨[0, 5]⟩, .region ⟨[2, 0]⟩, .region ⟨[0, 3]⟩] ∧
    (peer.batching true).sweepTargets = [.siblings ⟨[0]⟩ [5, 3], .siblings ⟨[2]⟩ [0]] ∧
    (peer.batching false).sweepQueries = .ok single ∧
    (peer.batching true).sweepQueries = .ok batched ∧
    (batched.flatMap Query.claims).Perm (single.flatMap Query.claims) := by
  let config : Config := { hub := "/hub", depth := 2, worldBits := 2 }
  let operations : List Operation := [.track ⟨[0, 5]⟩, .track ⟨[2, 0]⟩, .track ⟨[0, 3]⟩]
  have hmade : (made? config "alice" ⟨.zero, .zero, .zero⟩ []).any (fun start => decide
      (((start.run .sealing operations).batching false).sweepTargets =
          [.region ⟨[0, 5]⟩, .region ⟨[2, 0]⟩, .region ⟨[0, 3]⟩] ∧
        ((start.run .sealing operations).batching true).sweepTargets =
          [.siblings ⟨[0]⟩ [5, 3], .siblings ⟨[2]⟩ [0]])) = true := by
    decide +kernel
  obtain ⟨start, hstart, htargets⟩ := exists_make hmade
  obtain ⟨hsingle, hbatched⟩ := of_decide_eq_true htargets
  have hreachable : (start.run .sealing operations).Reachable .sealing :=
    ⟨_, _, _, _, start, operations, hstart, rfl⟩
  obtain ⟨-, -, -, single, batched, hone, hall, hclaims, -⟩ := batched_sweep hreachable
  exact ⟨_, single, batched, hreachable, hsingle, hbatched, hone, hall, hclaims⟩

end Peer

end RegionSync
