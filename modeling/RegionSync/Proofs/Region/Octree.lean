import RegionSync.Proofs.Region.Traversal
import RegionSync.Region.Octree

/-!
The octree as a map from paths to members and marks. Each operation changes the map at its own path
and nowhere else, and keeps the octree well formed; in a well-formed octree the places of a player,
gathered from the whole tree, are the paths that list it.
-/

namespace RegionSync.Octree

open Octant (Content)

variable {t t' : Octree} {p q : RegionPath} {e f : EntityName}

def contentAt (t : Octree) (p : RegionPath) : Content :=
  t.top.contentAt p.digits

/-- Children are in order, no leaf lists anybody twice, and every digest is up to date. -/
structure WellFormed (t : Octree) : Prop where
  ordered : t.top.Ordered
  fresh : ∀ p, (t.contentAt p).names.Fresh

/-- The leaves that list a player, one entry for each listing in the whole tree. -/
def places (t : Octree) (e : EntityName) : List RegionPath :=
  (t.top.memberships.filter (·.2 == e)).map fun m => ⟨m.1⟩

theorem isTracked_eq (t : Octree) (p : RegionPath) : t.isTracked p = (t.contentAt p).tracked := by
  unfold isTracked contentAt Octant.contentAt lookup?
  cases t.top.lookup? p.digits <;> rfl

theorem hasName_iff {t : Octree} :
    t.hasName p e = true ↔ e ∈ (t.contentAt p).names.names := by
  unfold hasName contentAt Octant.contentAt lookup?
  cases t.top.lookup? p.digits with
  | none => simp [Content.none, NameSet.empty]
  | some x => exact List.contains_iff_mem

theorem isLeaf_iff : t.isLeaf p = true ↔ p.digits.length = t.geometry.depth := by
  simp [isLeaf, RegionPath.depth]

theorem isLeaf_congr (h : t'.geometry = t.geometry) (p : RegionPath) :
    t'.isLeaf p = t.isLeaf p := by
  rw [isLeaf, isLeaf, h]

/-- The root is no leaf unless it is all there is. -/
theorem isRoot_of_isLeaf (hdepth : 0 < t.geometry.depth) (hleaf : t.isLeaf p = true) :
    p.isRoot = false := by
  rw [RegionPath.isRoot, List.isEmpty_eq_false_iff, ← List.length_pos_iff, isLeaf_iff.1 hleaf]
  exact hdepth

theorem contentAt_alter {f : {m : Nat} → Octant m → Octant m} (hf : Octant.KeepsChildren f)
    {u : Content → Content} (hu : ∀ {m : Nat} (x : Octant m),
      m + p.digits.length = t.geometry.depth → (f x).content = u x.content)
    (hp : p.digits.length ≤ t.geometry.depth) (q : RegionPath) :
    (t.alter p f).contentAt q = if q = p then u (t.contentAt p) else t.contentAt q := by
  have h := Octant.contentAt_alter hf hu hp t.top q.digits
  by_cases heq : q = p
  · rw [if_pos heq]
    exact h.trans (if_pos (congrArg RegionPath.digits heq))
  · rw [if_neg heq]
    exact h.trans (if_neg fun hdigits => heq (congrArg RegionPath.mk hdigits))

theorem isSome_lookup?_alter {f : {m : Nat} → Octant m → Octant m} (hf : Octant.KeepsChildren f)
    (hp : p.digits.length ≤ t.geometry.depth) (q : RegionPath) :
    ((t.alter p f).lookup? q).isSome = true ↔
      (t.lookup? q).isSome = true ∨ q.digits <+: p.digits :=
  Octant.isSome_lookup?_alter hf hp t.top q.digits

theorem isSome_lookup?_of_isTracked (h : t.isTracked p = true) : (t.lookup? p).isSome = true := by
  unfold isTracked at h
  cases hlookup : t.lookup? p with
  | none => simp [hlookup] at h
  | some => rfl

/-- The node of a leaf holds its members itself. -/
theorem contentAt_leaf (hleaf : t.isLeaf p = true) {m : Nat} {node : Octant m}
    (h : t.lookup? p = some ⟨m, node⟩) :
    node.leafNames = [(t.contentAt p).names.names] ∧ node.ownNames = (t.contentAt p).names := by
  have hlevel := Octant.level_of_lookup? h
  have hdepth := isLeaf_iff.1 hleaf
  obtain rfl : m = 0 := by omega
  have hcontent : t.contentAt p = node.content := by
    unfold contentAt Octant.contentAt
    rw [show t.top.lookup? p.digits = _ from h]
  rw [hcontent]
  exact ⟨rfl, rfl⟩

theorem wellFormed_empty (g : Geometry) : (empty g).WellFormed where
  ordered := Octant.ordered_empty
  fresh p := by
    have hnone : (empty g).contentAt p = .none := Octant.contentAt_empty p.digits
    rw [hnone]
    exact NameSet.fresh_empty

/-- An update of one region that leaves fresh members there keeps the octree well formed. -/
theorem WellFormed.alter (ht : t.WellFormed) {f : {m : Nat} → Octant m → Octant m}
    (hf : Octant.KeepsChildren f)
    (hfresh : ∀ q, ((t.alter p f).contentAt q).names.Fresh) : (t.alter p f).WellFormed where
  ordered := Octant.ordered_alter hf ht.ordered p.digits
  fresh := hfresh

/-- The members gathered in a leaf are those that it holds. -/
theorem namesIn?_leaf (ht : t.WellFormed) (hleaf : t.isLeaf p = true) :
    t.namesIn? p = (t.lookup? p).map fun _ => (t.contentAt p).names := by
  unfold namesIn?
  cases hlookup : t.lookup? p with
  | none => rfl
  | some found =>
      obtain ⟨m, node⟩ := found
      rw [Option.map_some, Option.map_some]
      show some (NameSet.ofList node.leafNames.flatten) = _
      rw [(contentAt_leaf hleaf hlookup).1, List.flatten_singleton,
        NameSet.ofList_names (ht.fresh p)]

/-- The members gathered in a region are members of leaves. -/
theorem exists_hasName_of_mem_namesIn? (ht : t.WellFormed) {s : NameSet} (h : t.namesIn? p = some s)
    (he : e ∈ s.names) : ∃ q, t.hasName q e = true := by
  unfold namesIn? at h
  cases hlookup : t.lookup? p with
  | none => simp [hlookup] at h
  | some found =>
      obtain ⟨m, node⟩ := found
      rw [hlookup] at h
      obtain rfl : NameSet.ofList node.leafNames.flatten = s := Option.some.inj h
      rw [NameSet.mem_ofList, Octant.flatten_leafNames, List.mem_map] at he
      obtain ⟨⟨path, f⟩, hmem, rfl⟩ := he
      have hin := (Octant.mem_memberships (Octant.ordered_of_lookup? ht.ordered hlookup)).1 hmem
      refine ⟨⟨p.digits ++ path⟩, ?_⟩
      rw [hasName_iff, contentAt, Octant.contentAt_append hlookup]
      exact hin

theorem digest?_leaf (hleaf : t.isLeaf p = true) :
    t.digest? p = (t.lookup? p).map fun _ => (t.contentAt p).names.digest := by
  unfold digest?
  rw [if_pos hleaf]
  cases hlookup : t.lookup? p with
  | none => rfl
  | some found =>
      obtain ⟨m, node⟩ := found
      rw [Option.map_some, Option.map_some]
      show some node.ownNames.digest = _
      rw [(contentAt_leaf hleaf hlookup).2]

/-! Players enter and leave leaves. -/

theorem addName_eq_ok_iff : t.addName p e = .ok t' ↔
    t.isLeaf p = true ∧ t' = t.alter p (Octant.mapNames fun s => (s.insert e).refresh) := by
  unfold addName alterWithin
  split
  · next hleaf =>
      have hdepth := isLeaf_iff.1 hleaf
      rw [if_neg (show ¬ t.geometry.depth < p.depth by rw [RegionPath.depth]; omega)]
      exact ⟨fun h => ⟨hleaf, (Except.ok.inj h).symm⟩, fun h => h.2 ▸ rfl⟩
  · next hleaf => simp [hleaf]

theorem contentAt_addName (h : t.addName p e = .ok t') (q : RegionPath) :
    t'.contentAt q = if q = p then
      ⟨((t.contentAt p).names.insert e).refresh, (t.contentAt p).tracked⟩ else t.contentAt q := by
  obtain ⟨hleaf, rfl⟩ := addName_eq_ok_iff.1 h
  have hdepth := isLeaf_iff.1 hleaf
  refine contentAt_alter (Octant.keepsChildren_mapNames _)
    (u := fun c => ⟨(c.names.insert e).refresh, c.tracked⟩) (fun {m} x hm => ?_) (by omega) q
  obtain rfl : m = 0 := by omega
  rfl

theorem geometry_addName (h : t.addName p e = .ok t') : t'.geometry = t.geometry := by
  rw [(addName_eq_ok_iff.1 h).2]
  rfl

theorem isTracked_addName (h : t.addName p e = .ok t') (q : RegionPath) :
    t'.isTracked q = t.isTracked q := by
  rw [isTracked_eq, isTracked_eq, contentAt_addName h]
  split
  · next heq => rw [heq]
  · rfl

/-- Adding to a leaf that has a node creates no other. -/
theorem isSome_lookup?_addName (h : t.addName p e = .ok t') (hp : (t.lookup? p).isSome = true)
    (q : RegionPath) : (t'.lookup? q).isSome = (t.lookup? q).isSome := by
  obtain ⟨hleaf, rfl⟩ := addName_eq_ok_iff.1 h
  have hdepth := isLeaf_iff.1 hleaf
  rw [Bool.eq_iff_iff, isSome_lookup?_alter (Octant.keepsChildren_mapNames _) (by omega)]
  refine ⟨fun hq => ?_, Or.inl⟩
  exact hq.elim id fun hq => Octant.isSome_lookup?_of_isPrefix hq hp

theorem hasName_addName (h : t.addName p e = .ok t') (q : RegionPath) (f : EntityName) :
    t'.hasName q f = true ↔ t.hasName q f = true ∨ q = p ∧ f = e := by
  rw [hasName_iff, hasName_iff, contentAt_addName h]
  split
  · next heq =>
      subst heq
      exact NameSet.mem_insert.trans (by simp)
  · next hne => simp [hne]

theorem WellFormed.addName (ht : t.WellFormed) (h : t.addName p e = .ok t') : t'.WellFormed := by
  have hcontent := contentAt_addName h
  obtain ⟨-, rfl⟩ := addName_eq_ok_iff.1 h
  refine ht.alter (Octant.keepsChildren_mapNames _) fun q => ?_
  rw [hcontent]
  split
  · exact NameSet.fresh_insert (ht.fresh p).1 e
  · exact ht.fresh q

theorem contentAt_removeName (t : Octree) (p : RegionPath) (e : EntityName) (q : RegionPath) :
    (t.removeName p e).contentAt q = if q = p then
      ⟨((t.contentAt p).names.remove e).refresh, (t.contentAt p).tracked⟩ else t.contentAt q := by
  have hnone : ∀ b, (⟨(NameSet.empty.remove e).refresh, b⟩ : Content) = ⟨.empty, b⟩ := fun _ => rfl
  unfold removeName
  cases hlookup : t.lookup? p with
  | none =>
      have hcontent : t.contentAt p = .none := Octant.contentAt_of_lookup?_eq_none hlookup
      simp only [Option.isSome_none, Bool.false_eq_true, ↓reduceIte]
      split
      · next heq => rw [heq, hcontent, Content.none, hnone]
      · rfl
  | some x =>
      have hp : p.digits.length ≤ t.geometry.depth := by
        refine Nat.le_of_not_lt fun hlt => ?_
        rw [lookup?, Octant.lookup?_eq_none_of_lt hlt] at hlookup
        cases hlookup
      simp only [Option.isSome_some, ↓reduceIte]
      refine contentAt_alter (Octant.keepsChildren_mapNames _)
        (u := fun c => ⟨(c.names.remove e).refresh, c.tracked⟩) (fun {m} x _ => ?_) hp q
      -- an inner node has no members of its own, before or after
      cases m with
      | zero => rfl
      | succ m => exact (hnone _).symm

theorem geometry_removeName (t : Octree) (p : RegionPath) (e : EntityName) :
    (t.removeName p e).geometry = t.geometry := by
  unfold removeName
  split <;> rfl

theorem isTracked_removeName (t : Octree) (p : RegionPath) (e : EntityName) (q : RegionPath) :
    (t.removeName p e).isTracked q = t.isTracked q := by
  rw [isTracked_eq, isTracked_eq, contentAt_removeName]
  split
  · next heq => rw [heq]
  · rfl

/-- A leaf takes a name that was listed elsewhere. -/
theorem exists_addName_of_move (p : RegionPath) (e : EntityName) (h : t.isLeaf q = true) :
    ∃ t', (t.removeName p e).addName q e = .ok t' :=
  ⟨_, addName_eq_ok_iff.2 ⟨(isLeaf_congr (geometry_removeName ..) q).trans h, rfl⟩⟩

/-- Moving a name to a leaf changes neither the geometry nor what is tracked. -/
theorem frame_of_move (h : (t.removeName p e).addName q e = .ok t') :
    t'.geometry = t.geometry ∧ (∀ x, t'.isTracked x = t.isTracked x) ∧ t'.isLeaf q = true := by
  have hgeometry := geometry_addName h
  refine ⟨hgeometry.trans (geometry_removeName ..), fun x => ?_, ?_⟩
  · rw [isTracked_addName h, isTracked_removeName]
  · rw [isLeaf_congr hgeometry]
    exact (addName_eq_ok_iff.1 h).1

theorem hasName_removeName (ht : t.WellFormed) (p : RegionPath) (e : EntityName) (q : RegionPath)
    (f : EntityName) : (t.removeName p e).hasName q f = true ↔
      t.hasName q f = true ∧ ¬ (q = p ∧ f = e) := by
  rw [hasName_iff, hasName_iff, contentAt_removeName]
  split
  · next heq =>
      subst heq
      exact (NameSet.mem_remove (ht.fresh q).1).trans (by simp)
  · next hne => simp [hne]

theorem WellFormed.removeName (ht : t.WellFormed) (p : RegionPath) (e : EntityName) :
    (t.removeName p e).WellFormed := by
  have hcontent := contentAt_removeName t p e
  have hfresh : ∀ q, ((t.removeName p e).contentAt q).names.Fresh := fun q => by
    rw [hcontent]
    split
    · exact NameSet.fresh_remove (ht.fresh p).1 e
    · exact ht.fresh q
  unfold Octree.removeName at hfresh ⊢
  split
  · next h =>
      rw [if_pos h] at hfresh
      exact ht.alter (Octant.keepsChildren_mapNames _) hfresh
  · exact ht

/-! Regions are tracked and left. -/

theorem contentAt_mark (flag : Bool) (hp : p.digits.length ≤ t.geometry.depth) (q : RegionPath) :
    (t.alter p (Octant.mark flag)).contentAt q =
      if q = p then ⟨(t.contentAt p).names, flag⟩ else t.contentAt q := by
  refine contentAt_alter (Octant.keepsChildren_mark flag) (u := fun c => ⟨c.names, flag⟩)
    (fun {m} x _ => ?_) hp q
  cases m <;> rfl

theorem track_eq_ok_iff : t.track p = .ok t' ↔
    p.digits.length ≤ t.geometry.depth ∧ t' = t.alter p (Octant.mark true) := by
  unfold track alterWithin
  rw [RegionPath.depth]
  split
  · next hlt => simp [Nat.not_le.2 hlt]
  · next hle => exact ⟨fun h => ⟨by omega, (Except.ok.inj h).symm⟩, fun h => h.2 ▸ rfl⟩

theorem contentAt_track (h : t.track p = .ok t') (q : RegionPath) :
    t'.contentAt q = if q = p then ⟨(t.contentAt p).names, true⟩ else t.contentAt q := by
  obtain ⟨hp, rfl⟩ := track_eq_ok_iff.1 h
  exact contentAt_mark true hp q

theorem contentAt_untrack (t : Octree) (p q : RegionPath) : (t.untrack p).contentAt q =
    if q = p then ⟨(t.contentAt p).names, false⟩ else t.contentAt q := by
  unfold untrack
  split
  · next htracked =>
      refine contentAt_mark false (Nat.le_of_not_lt fun hlt => ?_) q
      rw [isTracked, lookup?, Octant.lookup?_eq_none_of_lt hlt] at htracked
      cases htracked
  · next htracked =>
      rw [isTracked_eq, Bool.not_eq_true] at htracked
      split
      · next heq =>
          subst heq
          rw [← htracked]
      · rfl

theorem geometry_untrack (t : Octree) (p : RegionPath) :
    (t.untrack p).geometry = t.geometry := by
  unfold untrack
  split <;> rfl

theorem isTracked_track (h : t.track p = .ok t') (q : RegionPath) :
    t'.isTracked q = true ↔ t.isTracked q = true ∨ q = p := by
  rw [isTracked_eq, isTracked_eq, contentAt_track h]
  split
  · next heq => simp [heq]
  · next hne => simp [hne]

theorem hasName_track (h : t.track p = .ok t') (q : RegionPath) (e : EntityName) :
    t'.hasName q e = true ↔ t.hasName q e = true := by
  rw [hasName_iff, hasName_iff, contentAt_track h]
  split
  · next heq => rw [heq]
  · rfl

theorem isTracked_untrack (t : Octree) (p q : RegionPath) :
    (t.untrack p).isTracked q = true ↔ t.isTracked q = true ∧ q ≠ p := by
  rw [isTracked_eq, isTracked_eq, contentAt_untrack]
  split
  · next heq => simp [heq]
  · next hne => simp [hne]

theorem hasName_untrack (t : Octree) (p q : RegionPath) (e : EntityName) :
    (t.untrack p).hasName q e = true ↔ t.hasName q e = true := by
  rw [hasName_iff, hasName_iff, contentAt_untrack]
  split
  · next heq => rw [heq]
  · rfl

theorem WellFormed.track (ht : t.WellFormed) (h : t.track p = .ok t') : t'.WellFormed := by
  have hcontent := contentAt_track h
  obtain ⟨-, rfl⟩ := track_eq_ok_iff.1 h
  refine ht.alter (Octant.keepsChildren_mark true) fun q => ?_
  rw [hcontent]
  split
  · exact ht.fresh p
  · exact ht.fresh q

theorem WellFormed.untrack (ht : t.WellFormed) (p : RegionPath) : (t.untrack p).WellFormed := by
  have hfresh : ∀ q, ((t.untrack p).contentAt q).names.Fresh := fun q => by
    rw [contentAt_untrack]
    split
    · exact ht.fresh p
    · exact ht.fresh q
  unfold Octree.untrack at hfresh ⊢
  split
  · next h =>
      rw [if_pos h] at hfresh
      exact ht.alter (Octant.keepsChildren_mark false) hfresh
  · exact ht

/-! What is tracked in the whole tree. -/

theorem tracksWithin_iff (ht : t.WellFormed) :
    t.tracksWithin p = true ↔ ∃ q, t.isTracked q = true ∧ p.contains q = true := by
  unfold tracksWithin
  cases hlookup : t.lookup? p with
  | none =>
      refine ⟨fun hfalse => (Bool.false_ne_true hfalse).elim, ?_⟩
      rintro ⟨q, hq, hcontains⟩
      have hsome := Octant.isSome_lookup?_of_isPrefix (List.isPrefixOf_iff_prefix.1 hcontains)
        (isSome_lookup?_of_isTracked hq)
      rw [← lookup?, hlookup] at hsome
      cases hsome
  | some found =>
      obtain ⟨k, node⟩ := found
      dsimp only
      rw [Octant.anyTracked_iff (Octant.ordered_of_lookup? ht.ordered hlookup)]
      constructor
      · rintro ⟨path, hpath⟩
        refine ⟨⟨p.digits ++ path⟩, ?_, List.isPrefixOf_iff_prefix.2 (List.prefix_append _ _)⟩
        rw [isTracked_eq, contentAt, Octant.contentAt_append hlookup]
        exact hpath
      · rintro ⟨q, hq, hcontains⟩
        obtain ⟨path, hpath⟩ := List.isPrefixOf_iff_prefix.1 hcontains
        refine ⟨path, ?_⟩
        rw [isTracked_eq, contentAt, ← hpath, Octant.contentAt_append hlookup] at hq
        exact hq

theorem pairwise_trackedLeaves (ht : t.WellFormed) : t.top.trackedLeaves.Pairwise (· < ·) := by
  rw [Octant.trackedLeaves_eq ht.ordered]
  exact ((Octant.pairwise_paths ht.ordered).filter _).filter _

theorem mem_trackedLeaves (ht : t.WellFormed) :
    p ∈ t.trackedLeaves ↔ t.isTracked p = true ∧ t.isLeaf p = true := by
  have htracked : (t.top.contentAt p.digits).tracked = t.isTracked p := (isTracked_eq t p).symm
  have hmem : p ∈ t.trackedLeaves ↔ p.digits ∈ t.top.trackedLeaves := by
    rw [trackedLeaves, List.mem_map]
    constructor
    · rintro ⟨digits, hdigits, rfl⟩
      exact hdigits
    · intro hdigits
      exact ⟨p.digits, hdigits, rfl⟩
  rw [hmem, Octant.trackedLeaves_eq ht.ordered, List.mem_filter, Octant.leafPaths, List.mem_filter,
    Octant.mem_paths ht.ordered, htracked, isLeaf_iff, beq_iff_eq]
  constructor
  · rintro ⟨⟨-, hdepth⟩, hp⟩
    exact ⟨hp, hdepth⟩
  · rintro ⟨hp, hdepth⟩
    exact ⟨⟨isSome_lookup?_of_isTracked hp, hdepth⟩, hp⟩

theorem nodup_trackedLeaves (ht : t.WellFormed) : t.trackedLeaves.Nodup := by
  apply List.pairwise_map.2
  apply (pairwise_trackedLeaves ht).imp
  intro x y hlt heq
  rw [RegionPath.mk.inj heq] at hlt
  exact List.lt_irrefl y hlt

/-! The places of a player in the whole tree. -/

theorem mem_places (ht : t.WellFormed) : p ∈ t.places e ↔ t.hasName p e = true := by
  rw [hasName_iff, contentAt, ← Octant.mem_memberships ht.ordered]
  simp only [places, List.mem_map, List.mem_filter, beq_iff_eq, Prod.exists]
  constructor
  · rintro ⟨path, f, ⟨hmem, rfl⟩, rfl⟩
    exact hmem
  · intro hmem
    exact ⟨p.digits, e, ⟨hmem, rfl⟩, rfl⟩

theorem nodup_places (ht : t.WellFormed) (e : EntityName) : (t.places e).Nodup := by
  have hnodup := Octant.nodup_memberships ht.ordered fun path => (ht.fresh ⟨path⟩).1
  refine List.pairwise_map.2 ((hnodup.filter _).imp_of_mem fun {x y} hx hy hne heq => hne ?_)
  have hxe := (List.mem_filter.1 hx).2
  have hye := (List.mem_filter.1 hy).2
  rw [beq_iff_eq] at hxe hye
  exact Prod.ext (RegionPath.mk.inj heq) (hxe.trans hye.symm)

/-- A player occurs once in the whole tree, in `p`, if `p` lists it and no other path does. -/
theorem places_eq_singleton (ht : t.WellFormed) (h : ∀ q, t.hasName q e = true ↔ q = p) :
    t.places e = [p] := by
  have hperm : (t.places e).Perm [p] := by
    refine (List.perm_ext_iff_of_nodup (nodup_places ht e) (List.nodup_cons.2 ⟨List.not_mem_nil, .nil⟩)).2 fun q => ?_
    rw [mem_places ht, h, List.mem_singleton]
  exact List.perm_singleton.1 hperm

theorem places_eq_nil (ht : t.WellFormed) (h : ∀ q, ¬ t.hasName q e = true) : t.places e = [] := by
  refine List.eq_nil_iff_forall_not_mem.2 fun q hq => h q ?_
  exact (mem_places ht).1 hq

end RegionSync.Octree
