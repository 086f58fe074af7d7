import Mathlib.Data.Finset.Sort
import RegionSync.Proofs.Region.InPlace

/-!
The octree as a flat record: a set of regions that have nodes, a set of tracked regions, and a list
of names for each region. Operations on the record take no notice of the tree; still what the octree
shows after the same operations is read off the record.
-/

namespace RegionSync

/-- The regions from the root down to `p`. -/
def RegionPath.way (p : RegionPath) : Finset RegionPath :=
  (p.digits.inits.map RegionPath.mk).toFinset

theorem RegionPath.mem_way {p q : RegionPath} : q ∈ p.way ↔ q.digits <+: p.digits := by
  rw [way, List.mem_toFinset, List.mem_map]
  constructor
  · rintro ⟨digits, hdigits, rfl⟩
    exact (List.mem_inits _ _).1 hdigits
  · intro hprefix
    exact ⟨q.digits, (List.mem_inits _ _).2 hprefix, rfl⟩

/-- The regions of a set in lexicographic order. -/
def RegionPath.sorted (s : Finset RegionPath) : List RegionPath :=
  (s.image RegionPath.digits).sort.map RegionPath.mk

theorem RegionPath.sorted_eq {s : Finset RegionPath} {paths : List (List OctantIndex)}
    (hsorted : paths.Pairwise (· < ·)) (hmem : ∀ p, p ∈ paths ↔ RegionPath.mk p ∈ s) :
    sorted s = paths.map RegionPath.mk := by
  have himage : s.image RegionPath.digits = paths.toFinset := by
    ext p
    rw [Finset.mem_image, List.mem_toFinset, hmem]
    constructor
    · rintro ⟨q, hq, rfl⟩
      exact hq
    · intro hp
      exact ⟨⟨p⟩, hp, rfl⟩
  have hnodup : paths.Nodup := hsorted.imp fun hlt => ne_of_lt hlt
  rw [sorted, himage, (List.toFinset_sort _ hnodup).2 (hsorted.imp fun hlt => le_of_lt hlt)]

theorem RegionPath.length_sorted (s : Finset RegionPath) : (sorted s).length = s.card := by
  rw [sorted, List.length_map, Finset.length_sort, Finset.card_image_of_injective]
  rintro ⟨p⟩ ⟨q⟩ hdigits
  exact congrArg RegionPath.mk hdigits

namespace Octree

inductive Operation
  | insert (p : RegionPath)
  | track (p : RegionPath)
  | untrack (p : RegionPath)
  | addName (p : RegionPath) (e : EntityName)
  | removeName (p : RegionPath) (e : EntityName)

def perform (t : Octree) : Operation → Except RegionError Octree
  | .insert p => t.insert p
  | .track p => t.track p
  | .untrack p => .ok (t.untrack p)
  | .addName p e => t.addName p e
  | .removeName p e => .ok (t.removeName p e)

/-- The operation on an octree held in place. Those that take something away are never refused. -/
def Operation.inPlace : Operation → InPlace Unit
  | .insert p => insertInPlace p
  | .track p => trackInPlace p
  | .untrack p => modify fun t => t.untrack p
  | .addName p e => addNameInPlace p e
  | .removeName p e => modify fun t => t.removeName p e

/-- Every refusal is decided before anything is changed. -/
theorem run_inPlace (t : Octree) (operation : Operation) :
    operation.inPlace.run t = settle t (t.perform operation) := by
  cases operation with
  | insert p => exact run_insertInPlace t p
  | track p => exact run_trackInPlace t p
  | untrack p => rfl
  | addName p e => exact run_addNameInPlace t p e
  | removeName p e => rfl

/-- The octree after some operations, of which those refused change nothing. -/
def run (t : Octree) (operations : List Operation) : Octree :=
  operations.foldl (fun t operation => (t.perform operation).toOption.getD t) t

theorem geometry_perform {t t' : Octree} {operation : Operation}
    (h : t.perform operation = .ok t') : t'.geometry = t.geometry := by
  cases operation with
  | insert p =>
      simp only [perform, Octree.insert, alterWithin] at h
      split at h
      · cases h
      · cases h
        rfl
  | track p =>
      obtain ⟨-, rfl⟩ := track_eq_ok_iff.1 h
      rfl
  | untrack p =>
      cases h
      exact geometry_untrack t p
  | addName p e => exact geometry_addName h
  | removeName p e =>
      cases h
      exact geometry_removeName t p e

theorem geometry_run (t : Octree) (operations : List Operation) :
    (t.run operations).geometry = t.geometry := by
  induction operations generalizing t with
  | nil => rfl
  | cons operation operations ih =>
      rw [run, List.foldl_cons]
      refine (ih _).trans ?_
      cases hperform : t.perform operation with
      | error reason => rfl
      | ok t' => exact geometry_perform hperform

/-- What there is to an octree of this depth, without the tree. -/
structure Flat where
  depth : Nat
  nodes : Finset RegionPath
  tracked : Finset RegionPath
  names : RegionPath → List EntityName

namespace Flat

def empty (g : Geometry) : Flat :=
  ⟨g.depth, {.root}, ∅, fun _ => []⟩

/-- The record with nodes on the way to a region. -/
def reach (m : Flat) (p : RegionPath) : Flat :=
  { m with nodes := m.nodes ∪ p.way }

def setNames (m : Flat) (p : RegionPath) (es : List EntityName) : Flat :=
  { m with names := Function.update m.names p es }

theorem names_setNames (m : Flat) (p : RegionPath) (es : List EntityName) (q : RegionPath) :
    (m.setNames p es).names q = if q = p then es else m.names q :=
  Function.update_apply ..

def perform (m : Flat) : Operation → Except RegionError Flat
  | .insert p => if m.depth < p.depth then .error (.tooDeep p.depth m.depth) else .ok (m.reach p)
  | .track p =>
    if m.depth < p.depth then .error (.tooDeep p.depth m.depth)
    else .ok { m.reach p with tracked := m.tracked ∪ {p} }
  | .untrack p => .ok { m with tracked := m.tracked.erase p }
  | .addName p e =>
    if p.depth = m.depth then
      .ok ((m.reach p).setNames p (if e ∈ m.names p then m.names p else m.names p ++ [e]))
    else .error (.invalidPath s!"{p} is not a leaf")
  | .removeName p e => .ok (m.setNames p ((m.names p).erase e))

def run (m : Flat) (operations : List Operation) : Flat :=
  operations.foldl (fun m operation => (m.perform operation).toOption.getD m) m

/-- An operation lists nobody but the player that it adds. -/
theorem mem_names_of_perform {m m' : Flat} {operation : Operation}
    (h : m.perform operation = .ok m') {p : RegionPath} {e : EntityName} (he : e ∈ m'.names p) :
    e ∈ m.names p ∨ ∃ q, operation = .addName q e := by
  cases operation with
  | insert q =>
      simp only [perform] at h
      split at h
      · cases h
      · cases h
        exact Or.inl he
  | track q =>
      simp only [perform] at h
      split at h
      · cases h
      · cases h
        exact Or.inl he
  | untrack q =>
      cases h
      exact Or.inl he
  | addName q f =>
      simp only [perform] at h
      split at h
      · cases h
        rw [names_setNames] at he
        split at he
        · next heq =>
            subst heq
            split at he
            · exact Or.inl he
            · rcases List.mem_append.1 he with he | he
              · exact Or.inl he
              · exact Or.inr ⟨p, by rw [List.mem_singleton.1 he]⟩
        · exact Or.inl he
      · cases h
  | removeName q f =>
      cases h
      rw [names_setNames] at he
      split at he
      · next heq => exact Or.inl (heq ▸ List.mem_of_mem_erase he)
      · exact Or.inl he

/-- Whoever is listed after some operations was listed before or added by one of them. -/
theorem mem_names_run {m : Flat} {operations : List Operation} {p : RegionPath} {e : EntityName}
    (he : e ∈ (m.run operations).names p) :
    e ∈ m.names p ∨ ∃ q, Operation.addName q e ∈ operations := by
  induction operations generalizing m with
  | nil => exact Or.inl he
  | cons operation operations ih =>
      rw [run, List.foldl_cons] at he
      rcases ih he with he | ⟨q, hq⟩
      · cases hperform : m.perform operation with
        | error reason =>
            rw [hperform] at he
            exact Or.inl he
        | ok m' =>
            rw [hperform] at he
            rcases mem_names_of_perform hperform he with he | ⟨q, rfl⟩
            · exact Or.inl he
            · exact Or.inr ⟨q, List.mem_cons_self⟩
      · exact Or.inr ⟨q, List.mem_cons_of_mem _ hq⟩

/-- The leaves in a region, in order. -/
def leavesIn (m : Flat) (p : RegionPath) : List RegionPath :=
  RegionPath.sorted (m.nodes.filter fun q => q.depth = m.depth ∧ p.contains q)

def trackedLeaves (m : Flat) : List RegionPath :=
  RegionPath.sorted (m.tracked.filter fun q => q.depth = m.depth)

/-- The names in a region, each where it comes first. -/
def namesIn (m : Flat) (p : RegionPath) : List EntityName :=
  ((m.leavesIn p).flatMap m.names).eraseDups

end Flat

/-- The record says of every region what the octree does. -/
structure Shows (m : Flat) (t : Octree) : Prop where
  wellFormed : t.WellFormed
  depth : m.depth = t.geometry.depth
  nodes : ∀ p, p ∈ m.nodes ↔ (t.lookup? p).isSome = true
  tracked : ∀ p, p ∈ m.tracked ↔ t.isTracked p = true
  names : ∀ p, m.names p = (t.contentAt p).names.names

namespace Shows

variable {m m' : Flat} {t t' : Octree} {p : RegionPath} {e : EntityName}

theorem empty (g : Geometry) : Shows (.empty g) (.empty g) where
  wellFormed := wellFormed_empty g
  depth := rfl
  nodes p := by
    obtain ⟨digits⟩ := p
    rw [Flat.empty, Finset.mem_singleton, lookup?]
    cases digits with
    | nil => simp [RegionPath.root, Octant.lookup?_nil]
    | cons i digits => simp [RegionPath.root, Octree.empty, Octant.lookup?_empty]
  tracked p := by
    have hnone : (Octree.empty g).contentAt p = .none := Octant.contentAt_empty p.digits
    rw [isTracked_eq, hnone]
    simp [Flat.empty, Octant.Content.none]
  names p := by
    have hnone : (Octree.empty g).contentAt p = .none := Octant.contentAt_empty p.digits
    rw [hnone]
    rfl

/-- The way to a region that an update has gone. -/
theorem mem_reach (h : Shows m t) {f : {k : Nat} → Octant k → Octant k} (hf : Octant.KeepsChildren f)
    (hp : p.digits.length ≤ t.geometry.depth) (q : RegionPath) :
    q ∈ (m.reach p).nodes ↔ ((t.alter p f).lookup? q).isSome = true := by
  rw [Flat.reach, Finset.mem_union, RegionPath.mem_way, h.nodes, isSome_lookup?_alter hf hp]

/-- An update where there is a node creates none. -/
theorem mem_nodes (h : Shows m t) {f : {k : Nat} → Octant k → Octant k} (hf : Octant.KeepsChildren f)
    (hp : (t.lookup? p).isSome = true) (q : RegionPath) :
    q ∈ m.nodes ↔ ((t.alter p f).lookup? q).isSome = true := by
  have hdepth : p.digits.length ≤ t.geometry.depth := by
    refine Nat.le_of_not_lt fun hlt => ?_
    rw [lookup?, Octant.lookup?_eq_none_of_lt hlt] at hp
    cases hp
  rw [h.nodes, isSome_lookup?_alter hf hdepth]
  refine ⟨Or.inl, fun hq => ?_⟩
  exact hq.elim id fun hq => Octant.isSome_lookup?_of_isPrefix hq hp

theorem insert (h : Shows m t) (hp : p.digits.length ≤ t.geometry.depth) :
    Shows (m.reach p) (t.alter p id) := by
  have hf : Octant.KeepsChildren id := fun _ => rfl
  have hcontent : ∀ q, (t.alter p id).contentAt q = t.contentAt q := by
    intro q
    rw [contentAt_alter (f := fun {_} => id) (u := id) hf (fun _ _ => rfl) hp]
    split
    · next heq =>
        rw [heq]
        rfl
    · rfl
  refine ⟨h.wellFormed.alter hf fun q => ?_, h.depth, h.mem_reach hf hp, fun q => ?_, fun q => ?_⟩
  · rw [hcontent]
    exact h.wellFormed.fresh q
  · rw [isTracked_eq, hcontent, ← isTracked_eq]
    exact h.tracked q
  · rw [hcontent]
    exact h.names q

theorem track (h : Shows m t) (htrack : t.track p = .ok t') :
    Shows { m.reach p with tracked := m.tracked ∪ {p} } t' := by
  have hwell := h.wellFormed.track htrack
  have htracked := isTracked_track htrack
  have hcontent := contentAt_track htrack
  obtain ⟨hp, rfl⟩ := track_eq_ok_iff.1 htrack
  refine ⟨hwell, h.depth, h.mem_reach (Octant.keepsChildren_mark true) hp, fun q => ?_, fun q => ?_⟩
  · rw [htracked, Finset.mem_union, Finset.mem_singleton, h.tracked]
  · rw [hcontent]
    split
    · next heq =>
        rw [← heq]
        exact h.names q
    · exact h.names q

theorem untrack (h : Shows m t) (p : RegionPath) :
    Shows { m with tracked := m.tracked.erase p } (t.untrack p) := by
  refine ⟨h.wellFormed.untrack p, ?_, fun q => ?_, fun q => ?_, fun q => ?_⟩
  · rw [geometry_untrack]
    exact h.depth
  · unfold Octree.untrack
    split
    · next htracked =>
        exact h.mem_nodes (Octant.keepsChildren_mark false) (isSome_lookup?_of_isTracked htracked) q
    · exact h.nodes q
  · rw [isTracked_untrack, Finset.mem_erase, h.tracked, and_comm]
  · rw [contentAt_untrack]
    split
    · next heq =>
        rw [← heq]
        exact h.names q
    · exact h.names q

theorem addName (h : Shows m t) (hadd : t.addName p e = .ok t') : Shows ((m.reach p).setNames p
    (if e ∈ m.names p then m.names p else m.names p ++ [e])) t' := by
  have hwell := h.wellFormed.addName hadd
  have htracked := isTracked_addName hadd
  have hcontent := contentAt_addName hadd
  obtain ⟨hleaf, rfl⟩ := addName_eq_ok_iff.1 hadd
  have hdepth := isLeaf_iff.1 hleaf
  refine ⟨hwell, h.depth, h.mem_reach (Octant.keepsChildren_mapNames _) (by omega), fun q => ?_,
    fun q => ?_⟩
  · rw [htracked]
    exact h.tracked q
  · rw [hcontent, Flat.names_setNames, h.names p]
    split
    · simp only [NameSet.refresh, NameSet.insert, NameSet.contains, List.contains_iff_mem]
      split <;> rfl
    · exact h.names q

theorem removeName (h : Shows m t) (p : RegionPath) (e : EntityName) :
    Shows (m.setNames p ((m.names p).erase e)) (t.removeName p e) := by
  refine ⟨h.wellFormed.removeName p e, ?_, fun q => ?_, fun q => ?_, fun q => ?_⟩
  · rw [geometry_removeName]
    exact h.depth
  · unfold Octree.removeName
    split
    · next hp => exact h.mem_nodes (Octant.keepsChildren_mapNames _) hp q
    · exact h.nodes q
  · rw [isTracked_removeName]
    exact h.tracked q
  · rw [contentAt_removeName, Flat.names_setNames, h.names p]
    split
    · rfl
    · exact h.names q

/-- The same operations are refused, for the same reason, and the others change both alike. -/
theorem perform (h : Shows m t) (operation : Operation) :
    (∃ error, t.perform operation = .error error ∧ m.perform operation = .error error) ∨
      ∃ t' m', t.perform operation = .ok t' ∧ m.perform operation = .ok m' ∧ Shows m' t' := by
  cases operation with
  | insert p =>
      simp only [Octree.perform, Flat.perform, Octree.insert, alterWithin, h.depth]
      split
      · exact Or.inl ⟨_, rfl, rfl⟩
      · next hp => exact Or.inr ⟨_, _, rfl, rfl, h.insert (Nat.not_lt.1 hp)⟩
  | track p =>
      simp only [Octree.perform, Flat.perform, h.depth]
      split
      · next hp => exact Or.inl ⟨_, if_pos hp, rfl⟩
      · next hp =>
          have htrack := track_eq_ok_iff.2 ⟨Nat.not_lt.1 hp, rfl⟩
          exact Or.inr ⟨_, _, htrack, rfl, h.track htrack⟩
  | untrack p => exact Or.inr ⟨_, _, rfl, rfl, h.untrack p⟩
  | addName p e =>
      simp only [Octree.perform, Flat.perform, h.depth]
      split
      · next hp =>
          have hadd := (addName_eq_ok_iff (e := e)).2 ⟨isLeaf_iff.2 hp, rfl⟩
          exact Or.inr ⟨_, _, hadd, rfl, h.addName hadd⟩
      · next hp =>
          have hleaf : t.isLeaf p = false := by
            rw [isLeaf, beq_eq_false_iff_ne]
            exact hp
          exact Or.inl ⟨_, by rw [Octree.addName, hleaf]; rfl, rfl⟩
  | removeName p e => exact Or.inr ⟨_, _, rfl, rfl, h.removeName p e⟩

theorem run (h : Shows m t) (operations : List Operation) :
    Shows (m.run operations) (t.run operations) := by
  induction operations generalizing m t with
  | nil => exact h
  | cons operation operations ih =>
      rcases h.perform operation with ⟨error, ht, hm⟩ | ⟨t', m', ht, hm, h'⟩
      · rw [Octree.run, Flat.run, List.foldl_cons, List.foldl_cons, ht, hm]
        exact ih h
      · rw [Octree.run, Flat.run, List.foldl_cons, List.foldl_cons, ht, hm]
        exact ih h'

/-! What is read off the record. -/

theorem size_eq (h : Shows m t) : t.size = m.nodes.card := by
  have hpaths := Octant.pairwise_paths h.wellFormed.ordered
  have hsorted : RegionPath.sorted m.nodes = t.top.paths.map RegionPath.mk := by
    apply RegionPath.sorted_eq hpaths
    intro p
    rw [Octant.mem_paths h.wellFormed.ordered, h.nodes, lookup?]
  have hcard := congrArg List.length hsorted
  rw [List.length_map, Octant.length_paths, RegionPath.length_sorted] at hcard
  exact hcard.symm

theorem tracksWithin_iff (h : Shows m t) (p : RegionPath) :
    t.tracksWithin p = true ↔ ∃ q ∈ m.tracked, p.contains q = true := by
  rw [Octree.tracksWithin_iff h.wellFormed]
  apply exists_congr
  intro q
  rw [h.tracked]

theorem trackedLeaves_eq (h : Shows m t) : t.trackedLeaves = m.trackedLeaves := by
  rw [Flat.trackedLeaves, Octree.trackedLeaves]
  refine (RegionPath.sorted_eq (pairwise_trackedLeaves h.wellFormed) ?_).symm
  intro p
  have hmem : p ∈ t.top.trackedLeaves ↔ ⟨p⟩ ∈ t.trackedLeaves := by
    simp [Octree.trackedLeaves]
  rw [hmem, mem_trackedLeaves h.wellFormed, Finset.mem_filter, h.tracked, h.depth, isLeaf_iff]
  rfl

/-- The leaves in a region are those below its node. -/
theorem leavesIn_eq (h : Shows m t) {k : Nat} {node : Octant k}
    (hlookup : t.lookup? p = some ⟨k, node⟩) :
    m.leavesIn p = node.leafPaths.map fun path => ⟨p.digits ++ path⟩ := by
  have hordered := Octant.ordered_of_lookup? h.wellFormed.ordered hlookup
  have hlevel := Octant.level_of_lookup? hlookup
  have hmap : node.leafPaths.map (fun path => (⟨p.digits ++ path⟩ : RegionPath)) =
      (node.leafPaths.map (p.digits ++ ·)).map RegionPath.mk := by
    rw [List.map_map]
    rfl
  rw [hmap, Flat.leavesIn]
  apply RegionPath.sorted_eq
  · apply List.pairwise_map.2
    apply ((Octant.pairwise_paths hordered).filter _).imp
    intro x y hlt
    exact List.append_left_lt hlt
  · intro q
    rw [List.mem_map, Finset.mem_filter, h.nodes, h.depth]
    constructor
    · rintro ⟨path, hpath, rfl⟩
      rw [Octant.leafPaths, List.mem_filter, Octant.mem_paths hordered, beq_iff_eq] at hpath
      refine ⟨?_, ?_, List.isPrefixOf_iff_prefix.2 (List.prefix_append _ _)⟩
      · rw [lookup?, Octant.lookup?_append hlookup]
        exact hpath.1
      · rw [RegionPath.depth, List.length_append, hpath.2, ← hlevel, Nat.add_comm]
    · rintro ⟨hq, hdepth, hcontains⟩
      obtain ⟨path, rfl⟩ := List.isPrefixOf_iff_prefix.1 hcontains
      refine ⟨path, ?_, rfl⟩
      rw [lookup?, Octant.lookup?_append hlookup] at hq
      rw [RegionPath.depth, List.length_append] at hdepth
      rw [Octant.leafPaths, List.mem_filter, Octant.mem_paths hordered, beq_iff_eq]
      exact ⟨hq, by omega⟩

theorem namesIn?_eq (h : Shows m t) (p : RegionPath) : t.namesIn? p =
    if p ∈ m.nodes then some ⟨m.namesIn p, Digest.ofNames (m.namesIn p)⟩ else none := by
  unfold namesIn?
  cases hlookup : t.lookup? p with
  | none =>
      rw [if_neg]
      · rfl
      · rw [h.nodes, hlookup]
        exact Bool.false_ne_true
  | some found =>
      obtain ⟨k, node⟩ := found
      have hmem : p ∈ m.nodes := by
        rw [h.nodes, hlookup]
        rfl
      have hnames : node.leafNames.flatten = (m.leavesIn p).flatMap m.names := by
        rw [Octant.leafNames_eq (Octant.ordered_of_lookup? h.wellFormed.ordered hlookup),
          h.leavesIn_eq hlookup, List.flatMap_map, List.flatMap_def]
        congr 1
        apply List.map_congr_left
        intro path _
        rw [h.names, contentAt, Octant.contentAt_append hlookup]
      rw [if_pos hmem, Option.map_some]
      dsimp only
      rw [hnames]
      exact congrArg (fun es => some (⟨es, Digest.ofNames es⟩ : NameSet))
        (NameSet.names_ofList _)

theorem nodup_names (h : Shows m t) (p : RegionPath) : (m.names p).Nodup := by
  rw [h.names]
  exact (h.wellFormed.fresh p).1

end Shows

/-- Every member of a leaf has been added. -/
theorem exists_addName_of_hasName {g : Geometry} {operations : List Operation} {p : RegionPath}
    {e : EntityName} (h : ((empty g).run operations).hasName p e = true) :
    ∃ q, Operation.addName q e ∈ operations := by
  rw [hasName_iff, ← ((Shows.empty g).run operations).names] at h
  rcases Flat.mem_names_run h with hnone | hadded
  · cases hnone
  · exact hadded

/-- Members are gathered in the same order when the leaves are reached level by level. -/
theorem namesIn?_eq_gather (t : Octree) (p : RegionPath) :
    t.namesIn? p = (t.lookup? p).map fun node => .ofList (Octant.gather [node]).flatten := by
  unfold namesIn?
  cases t.lookup? p with
  | none => rfl
  | some found =>
      obtain ⟨k, node⟩ := found
      have hgather : Octant.gather [⟨k, node⟩] = node.leafNames := by
        have hlevel := Octant.gather_level [node]
        rw [List.flatMap_singleton] at hlevel
        exact hlevel
      rw [Option.map_some, Option.map_some, hgather]

/-- After any operations the octree shows what the flat record says: its nodes, their number and
order, the tracked regions and where there are any, the members of each leaf, and those of each region
gathered leaf by leaf. What is refused is refused for the same reason, and changes nothing: where the
octree is held in place, every refusal comes before the first change. -/
theorem run_eq_flat (g : Geometry) (operations : List Operation) :
    let t := (empty g).run operations
    let m := (Flat.empty g).run operations
    (∀ p, (t.lookup? p).isSome = true ↔ p ∈ m.nodes) ∧
      t.size = m.nodes.card ∧
      (∀ p, ∀ node ∈ t.lookup? p, node.2.childIndices.Pairwise (· < ·)) ∧
      (∀ p, t.isTracked p = true ↔ p ∈ m.tracked) ∧
      (∀ p, t.tracksWithin p = true ↔ ∃ q ∈ m.tracked, p.contains q = true) ∧
      t.trackedLeaves = m.trackedLeaves ∧
      (∀ p e, t.hasName p e = true ↔ e ∈ m.names p) ∧
      (∀ p, (m.names p).Nodup) ∧
      (∀ p, t.namesIn? p =
        if p ∈ m.nodes then some ⟨m.namesIn p, Digest.ofNames (m.namesIn p)⟩ else none) ∧
      (∀ p, t.namesIn? p =
        (t.lookup? p).map fun node => .ofList (Octant.gather [node]).flatten) ∧
      (∀ operation error,
        (t.perform operation = .error error ↔ m.perform operation = .error error) ∧
          (t.perform operation = .error error → (empty g).run (operations ++ [operation]) = t)) ∧
      ∀ operation : Operation, operation.inPlace.run t = settle t (t.perform operation) := by
  intro t m
  have h : Shows m t := (Shows.empty g).run operations
  refine ⟨fun p => (h.nodes p).symm, h.size_eq, ?_, fun p => (h.tracked p).symm, h.tracksWithin_iff,
    h.trackedLeaves_eq, ?_, h.nodup_names, h.namesIn?_eq, t.namesIn?_eq_gather, ?_, run_inPlace t⟩
  · rintro p ⟨k, node⟩ hlookup
    exact (Octant.ordered_of_lookup? h.wellFormed.ordered hlookup).pairwise_childIndices
  · intro p e
    rw [hasName_iff, h.names]
  · intro operation error
    constructor
    · rcases h.perform operation with ⟨reason, ht, hm⟩ | ⟨t', m', ht, hm, -⟩
      · simp [ht, hm]
      · simp [ht, hm]
    · intro herror
      rw [run, List.foldl_append, List.foldl_cons, List.foldl_nil]
      show (t.perform operation).toOption.getD t = t
      rw [herror]
      rfl

end Octree

end RegionSync
