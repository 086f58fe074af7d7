import Mathlib.Data.List.Lex
import RegionSync.Proofs.Region.Octant

/-!
The nodes of an octant, listed by their paths. The list is in lexicographic order, with a node before
those below it, and what else is gathered from the whole octant, its marks, its size and the members
of its leaves, is read off it. As all leaves are on one level, a walk level by level comes to them in
the same order.
-/

namespace RegionSync.Octant

variable {n : Nat}

/-- The paths of all nodes, each before those that extend it. -/
def paths : {n : Nat} → Octant n → List (List OctantIndex)
  | 0, _ => [[]]
  | _ + 1, branch =>
    [] :: (Branch.children branch).flatMap fun (i, child) => (paths child).map (i :: ·)

theorem mem_paths {node : Octant n} (h : Ordered node) {p : List OctantIndex} :
    p ∈ paths node ↔ (node.lookup? p).isSome = true := by
  induction n generalizing p with
  | zero => cases p <;> simp [paths, lookup?]
  | succ n ih =>
      cases p with
      | nil => simp [paths, lookup?_nil]
      | cons i p =>
          rw [lookup?_cons]
          simp only [paths, List.mem_cons, reduceCtorEq, false_or, List.mem_flatMap, List.mem_map,
            List.cons.injEq]
          constructor
          · rintro ⟨⟨j, child⟩, hchild, q, hq, rfl, rfl⟩
            rw [(Branch.child?_eq_some_iff (nodup_indices h)).2 hchild]
            exact (ih (h.2 _ hchild)).1 hq
          · intro hsome
            cases hchild : Branch.child? i (Branch.children node) with
            | none =>
                rw [hchild] at hsome
                cases hsome
            | some child =>
                rw [hchild] at hsome
                have hin := Branch.mem_of_child? hchild
                exact ⟨(i, child), hin, p, (ih (h.2 _ hin)).2 hsome, rfl, rfl⟩

theorem pairwise_paths {node : Octant n} (h : Ordered node) : (paths node).Pairwise (· < ·) := by
  induction n with
  | zero => exact List.pairwise_singleton _ _
  | succ n ih =>
      apply List.pairwise_cons.2
      constructor
      · intro p hp
        obtain ⟨c, -, hp⟩ := List.mem_flatMap.1 hp
        obtain ⟨q, -, rfl⟩ := List.mem_map.1 hp
        exact List.nil_lt_cons c.1 q
      · apply List.pairwise_flatMap.2
        constructor
        · intro c hc
          apply List.pairwise_map.2
          apply (ih (h.2 c hc)).imp
          intro p q hlt
          exact List.cons_lt_cons_iff.2 (Or.inr ⟨rfl, hlt⟩)
        · apply h.1.imp
          rintro c d hlt p hp q hq
          obtain ⟨p, -, rfl⟩ := List.mem_map.1 hp
          obtain ⟨q, -, rfl⟩ := List.mem_map.1 hq
          exact List.cons_lt_cons_iff.2 (Or.inl hlt)

theorem length_paths (node : Octant n) : (paths node).length = node.count := by
  induction n with
  | zero => rfl
  | succ n ih =>
      rw [paths, count, List.length_cons, List.length_flatMap, List.sum_eq_foldr, Nat.add_comm]
      congr 2
      apply List.map_congr_left
      intro c _
      rw [List.length_map, ih c.2]

/-- The paths of the leaves in order. -/
def leafPaths (node : Octant n) : List (List OctantIndex) :=
  (paths node).filter (·.length == n)

theorem leafPaths_succ (branch : Octant (n + 1)) : leafPaths branch =
    (Branch.children branch).flatMap fun (i, child) => (leafPaths child).map (i :: ·) := by
  rw [leafPaths, paths, List.filter_cons_of_neg (by simp), List.filter_flatMap]
  congr 1
  funext c
  rw [List.filter_map]
  congr 1
  apply List.filter_congr
  intro p _
  simp

/-- What stands at a path through a child stands there in the child. -/
theorem contentAt_child {branch : Octant (n + 1)} (h : Ordered branch) {c : OctantIndex × Octant n}
    (hc : c ∈ Branch.children branch) (p : List OctantIndex) :
    contentAt branch (c.1 :: p) = contentAt c.2 p := by
  rw [contentAt_cons, (Branch.child?_eq_some_iff (nodup_indices h)).2 hc, Option.getD_some]

theorem leafNames_eq {node : Octant n} (h : Ordered node) :
    node.leafNames = (leafPaths node).map fun p => (contentAt node p).names.names := by
  induction n with
  | zero => rfl
  | succ n ih =>
      rw [leafPaths_succ, leafNames, List.map_flatMap]
      apply List.flatMap_congr
      rintro ⟨i, child⟩ hc
      rw [List.map_map]
      dsimp only
      rw [ih (h.2 _ hc)]
      apply List.map_congr_left
      intro p _
      exact congrArg (·.names.names) (contentAt_child h hc p).symm

theorem trackedLeaves_eq {node : Octant n} (h : Ordered node) :
    node.trackedLeaves = (leafPaths node).filter fun p => (contentAt node p).tracked := by
  induction n with
  | zero =>
      rw [trackedLeaves, leafPaths, paths]
      cases htracked : Leaf.tracked node <;>
        simp [contentAt_nil, content, tracked, htracked]
  | succ n ih =>
      rw [leafPaths_succ, trackedLeaves, List.filter_flatMap]
      apply List.flatMap_congr
      rintro ⟨i, child⟩ hc
      rw [List.filter_map]
      dsimp only
      rw [ih (h.2 _ hc)]
      congr 1
      apply List.filter_congr
      intro p _
      exact congrArg (·.tracked) (contentAt_child h hc p).symm

theorem anyTracked_iff {node : Octant n} (h : Ordered node) :
    node.anyTracked = true ↔ ∃ p, (contentAt node p).tracked = true := by
  induction n with
  | zero =>
      constructor
      · intro htracked
        exact ⟨[], htracked⟩
      · rintro ⟨p, hp⟩
        cases p with
        | nil => exact hp
        | cons i p => cases hp
  | succ n ih =>
      rw [anyTracked, Bool.or_eq_true, List.any_eq_true]
      constructor
      · rintro (htracked | ⟨c, hc, hany⟩)
        · exact ⟨[], htracked⟩
        · obtain ⟨p, hp⟩ := (ih (h.2 c hc)).1 hany
          exact ⟨c.1 :: p, by rw [contentAt_child h hc]; exact hp⟩
      · rintro ⟨p, hp⟩
        cases p with
        | nil => exact Or.inl hp
        | cons i p =>
            rw [contentAt_cons] at hp
            cases hchild : Branch.child? i (Branch.children node) with
            | none =>
                rw [hchild, Option.getD_none, contentAt_empty] at hp
                cases hp
            | some child =>
                rw [hchild, Option.getD_some] at hp
                have hin := Branch.mem_of_child? hchild
                exact Or.inr ⟨(i, child), hin, (ih (h.2 _ hin)).2 ⟨p, hp⟩⟩

/-! Level by level. -/

def childNodes (node : Octant (n + 1)) : List (Octant n) :=
  (Branch.children node).map (·.2)

/-- A queue of nodes on one level. -/
def level (nodes : List (Octant n)) : List ((m : Nat) × Octant m) :=
  nodes.map fun node => ⟨n, node⟩

/-- The members of the leaves that a queue of nodes leads to: the first node of the queue is a leaf,
or its children go to the end of the queue. -/
def gather : List ((m : Nat) × Octant m) → List (List EntityName)
  | [] => []
  | ⟨0, leaf⟩ :: queue => (Leaf.names leaf).names :: gather queue
  | ⟨_ + 1, branch⟩ :: queue => gather (queue ++ level (childNodes branch))
termination_by queue => (queue.flatMap fun node => paths node.2).length
decreasing_by
  · simp [paths]
  · simp [level, childNodes, paths, List.flatMap_map, Nat.add_comm]

theorem level_append (xs ys : List (Octant n)) : level (xs ++ ys) = level xs ++ level ys :=
  List.map_append

/-- After the nodes of a level come their children, behind what was of the next level already. -/
theorem gather_level_append (nodes : List (Octant (n + 1))) (below : List (Octant n)) :
    gather (level nodes ++ level below) = gather (level (below ++ nodes.flatMap childNodes)) := by
  induction nodes generalizing below with
  | nil =>
      rw [List.flatMap_nil, List.append_nil]
      rfl
  | cons node nodes ih =>
      have hfirst : level (node :: nodes) = ⟨n + 1, node⟩ :: level nodes := rfl
      rw [hfirst, List.cons_append, gather, List.append_assoc, ← level_append, ih,
        List.flatMap_cons, List.append_assoc]

theorem gather_level (nodes : List (Octant n)) :
    gather (level nodes) = nodes.flatMap leafNames := by
  induction n with
  | zero =>
      induction nodes with
      | nil => rw [level, List.map_nil, gather, List.flatMap_nil]
      | cons leaf nodes ih =>
          have hfirst : level (leaf :: nodes) = ⟨0, leaf⟩ :: level nodes := rfl
          rw [hfirst, gather, List.flatMap_cons, leafNames, List.singleton_append, ih]
  | succ n ih =>
      calc gather (level nodes)
          = gather (level nodes ++ level ([] : List (Octant n))) := by
            rw [show level ([] : List (Octant n)) = [] from rfl, List.append_nil]
        _ = (nodes.flatMap childNodes).flatMap leafNames := by
            rw [gather_level_append, List.nil_append, ih]
        _ = nodes.flatMap leafNames := by
            rw [List.flatMap_assoc]
            apply List.flatMap_congr
            intro node _
            rw [childNodes, List.flatMap_map, leafNames]

end RegionSync.Octant
