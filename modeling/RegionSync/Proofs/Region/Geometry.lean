import Mathlib.Data.List.Basic
import Mathlib.Data.List.Induction
import Mathlib.Tactic.Tauto
import RegionSync.Proofs.Binary.Whole
import RegionSync.Region.Geometry

/-!
Regions as cubes. The digits of a leaf are the leading bits of its coordinates, and the cell of a path
puts bits of each axis together again, so a cube holds a point if its path is a beginning of the
point's leaf.
-/

namespace RegionSync.Geometry

variable {g : Geometry} {p : Point} {q : RegionPath}

/-- There is a level, each level halves whole edges, and whole coordinates are exact. -/
structure Exact (g : Geometry) : Prop where
  pos : 1 ≤ g.depth
  levels : g.depth ≤ g.worldBits.toNat
  bits : g.worldBits.toNat ≤ 24

/-! Paths and cells. -/

theorem cell_append (digits : List OctantIndex) (d : OctantIndex) : cell (digits ++ [d]) =
    (2 * (cell digits).1 + d.val / 4 % 2, 2 * (cell digits).2.1 + d.val / 2 % 2,
      2 * (cell digits).2.2 + d.val % 2) := by
  rw [cell, List.foldl_append]
  rfl

/-- The cell of a path is one of those of its depth. -/
theorem cell_lt (digits : List OctantIndex) : (cell digits).1 < 2 ^ digits.length ∧
    (cell digits).2.1 < 2 ^ digits.length ∧ (cell digits).2.2 < 2 ^ digits.length := by
  induction digits using List.reverseRecOn with
  | nil => decide
  | append_singleton digits d ih =>
      rw [cell_append, List.length_append, List.length_singleton, Nat.pow_succ]
      dsimp only
      omega

/-- Different paths of one depth have different cells. -/
theorem cell_injective {digits others : List OctantIndex} (hlength : digits.length = others.length)
    (h : cell digits = cell others) : digits = others := by
  induction digits using List.reverseRecOn generalizing others with
  | nil => exact (List.length_eq_zero_iff.1 hlength.symm).symm
  | append_singleton digits d ih =>
      rcases List.eq_nil_or_concat' others with rfl | ⟨others, d', rfl⟩
      · simp at hlength
      · rw [cell_append, cell_append] at h
        simp only [Prod.mk.injEq] at h
        -- The halves are the cell of the levels above, the remainders the bits of the last digit.
        have hcell : cell digits = cell others := by
          refine Prod.ext ?_ (Prod.ext ?_ ?_) <;> omega
        have hdigit : d = d' := Fin.ext (by omega)
        rw [ih (by simpa using hlength) hcell, hdigit]

theorem depth_leaf (g : Geometry) (x y z : Nat) : (g.leaf x y z).depth = g.depth := by
  rw [RegionPath.depth, leaf, List.length_map, List.length_range]

/-- A leaf begins with the octants of its first levels. -/
theorem take_leaf (g : Geometry) (x y z : Nat) {depth : Nat} (h : depth ≤ g.depth) :
    (g.leaf x y z).digits.take depth =
      (List.range depth).map fun level => octantAt (g.worldBits.toNat - 1 - level) x y z := by
  rw [leaf, ← List.map_take, List.take_range, Nat.min_eq_left h]

theorem bit_octantAt (shift x y z : Nat) : (octantAt shift x y z).val / 4 % 2 = bitAt shift x ∧
    (octantAt shift x y z).val / 2 % 2 = bitAt shift y ∧
    (octantAt shift x y z).val % 2 = bitAt shift z := by
  have hx := bitAt_lt shift x
  have hy := bitAt_lt shift y
  have hz := bitAt_lt shift z
  simp only [octantAt]
  omega

/-- A level adds its bit to what the levels above have of a coordinate. -/
theorem div_pow_eq (shift c : Nat) : 2 * (c / 2 ^ (shift + 1)) + bitAt shift c = c / 2 ^ shift := by
  rw [bitAt, Nat.pow_succ, ← Nat.div_div_eq_div_mul]
  omega

/-- The cell of the first levels of a leaf: its coordinates without the bits of the other levels. -/
theorem cell_leaf {bits level x y z : Nat} (hlevel : level ≤ bits) (hx : x < 2 ^ bits)
    (hy : y < 2 ^ bits) (hz : z < 2 ^ bits) :
    cell ((List.range level).map fun i => octantAt (bits - 1 - i) x y z) =
      (x / 2 ^ (bits - level), y / 2 ^ (bits - level), z / 2 ^ (bits - level)) := by
  induction level with
  | zero =>
      rw [Nat.sub_zero, Nat.div_eq_of_lt hx, Nat.div_eq_of_lt hy, Nat.div_eq_of_lt hz]
      rfl
  | succ level ih =>
      obtain ⟨hbitx, hbity, hbitz⟩ := bit_octantAt (bits - 1 - level) x y z
      have habove : bits - level = bits - 1 - level + 1 := by omega
      have hbelow : bits - (level + 1) = bits - 1 - level := by omega
      rw [List.range_succ, List.map_append, List.map_singleton, cell_append, ih (by omega), hbitx,
        hbity, hbitz, habove, hbelow, div_pow_eq, div_pow_eq, div_pow_eq]

/-! Cubes and points. -/

/-- A point is on its side of a cube if its whole part falls into the cell. -/
theorem spans_iff {cell edge : Nat} (hedge : 0 < edge) (h : (cell + 1) * edge ≤ 2 ^ 24) {c : Single} :
    Cube.spans (.ofNat (cell * edge)) (.ofNat edge) c = true ↔ c.Nonneg ∧ cell = c.floor / edge := by
  -- Both faces are exact, so the sum that the far one is compared by is not rounded.
  have hsum : cell * edge + edge = (cell + 1) * edge := (Nat.succ_mul cell edge).symm
  have hfloor : cell * edge ≤ c.floor ∧ c.floor < cell * edge + edge ↔ cell = c.floor / edge := by
    rw [hsum, ← Nat.le_div_iff_mul_le hedge, ← Nat.div_lt_iff_lt_mul hedge]
    omega
  rw [Cube.spans, Binary.add_ofNat (by rw [hsum]; exact h),
    Binary.between_ofNat_iff (by rw [Width.precision]; omega) (by rw [hsum]; exact h), hfloor]

namespace Exact

theorem lt_of_le (h : g.Exact) {depth : Nat} (hdepth : depth ≤ g.depth) : depth < 2 ^ 32 := by
  have hlevels := h.levels
  have hbits := h.bits
  omega

theorem edgeAt_eq (h : g.Exact) {depth : Nat} (hdepth : depth ≤ g.depth) :
    g.edgeAt depth = 2 ^ (g.worldBits.toNat - depth) := by
  rw [edgeAt, Nat.mod_eq_of_lt (h.lt_of_le hdepth)]

/-- As many edges as there are cells in a row make up the edge of the world. -/
theorem pow_mul_edgeAt (h : g.Exact) {depth : Nat} (hdepth : depth ≤ g.depth) :
    2 ^ depth * g.edgeAt depth = 2 ^ g.worldBits.toNat := by
  rw [h.edgeAt_eq hdepth, ← Nat.pow_add, Nat.add_sub_cancel' (Nat.le_trans hdepth h.levels)]

theorem edgeAt_pos (h : g.Exact) {depth : Nat} (hdepth : depth ≤ g.depth) : 0 < g.edgeAt depth := by
  rw [h.edgeAt_eq hdepth]
  exact Nat.pow_pos (by decide)

theorem extent_le (h : g.Exact) : 2 ^ g.worldBits.toNat ≤ 2 ^ 24 :=
  Nat.pow_le_pow_right (by decide) h.bits

/-- Every region that the octree reaches has a cube. -/
theorem cubeOf_eq (h : g.Exact) (hq : q.depth ≤ g.depth) : g.cubeOf q = .ok (.ok (g.cube q)) := by
  have hlevels := Nat.le_trans hq h.levels
  rw [cubeOf, if_neg (Nat.not_lt.2 hq), Nat.mod_eq_of_lt (h.lt_of_le hq),
    if_neg (Nat.not_lt.2 hlevels)]

theorem of_cubeOf (h : g.Exact) {cube : Cube} (hcube : g.cubeOf q = .ok (.ok cube)) :
    q.depth ≤ g.depth ∧ cube = g.cube q := by
  by_cases hq : q.depth ≤ g.depth
  · rw [h.cubeOf_eq hq] at hcube
    cases hcube
    exact ⟨hq, rfl⟩
  · rw [cubeOf, if_pos (Nat.lt_of_not_le hq)] at hcube
    cases hcube

theorem spans_iff (h : g.Exact) {depth cell : Nat} (hdepth : depth ≤ g.depth)
    (hcell : cell < 2 ^ depth) {c : Single} :
    Cube.spans (.ofNat (cell * g.edgeAt depth)) (.ofNat (g.edgeAt depth)) c = true ↔
      c.Nonneg ∧ cell = c.floor / g.edgeAt depth := by
  refine Geometry.spans_iff (h.edgeAt_pos hdepth) (Nat.le_trans ?_ h.extent_le)
  rw [← h.pow_mul_edgeAt hdepth]
  exact Nat.mul_le_mul_right _ hcell

/-- A cube holds the points whose whole coordinates fall into the cell of its path. -/
theorem contains_cube_iff (h : g.Exact) (hq : q.depth ≤ g.depth) :
    (g.cube q).contains p = true ↔ (p.x.Nonneg ∧ p.y.Nonneg ∧ p.z.Nonneg) ∧
      cell q.digits = (p.x.floor / g.edgeAt q.depth, p.y.floor / g.edgeAt q.depth,
        p.z.floor / g.edgeAt q.depth) := by
  obtain ⟨hx, hy, hz⟩ := cell_lt q.digits
  rw [Cube.contains, cube, Bool.and_eq_true, Bool.and_eq_true, h.spans_iff hq hx, h.spans_iff hq hy,
    h.spans_iff hq hz, Prod.ext_iff, Prod.ext_iff]
  tauto

theorem inside_iff (h : g.Exact) {c : Single} :
    g.inside c = true ↔ c.Nonneg ∧ c.floor < 2 ^ g.worldBits.toNat := by
  rw [inside, extent, ← Binary.ofNat_zero, Binary.between_ofNat_iff (Nat.zero_le _) h.extent_le,
    and_iff_right (Nat.zero_le _)]

theorem inWorld_iff (h : g.Exact) :
    g.inWorld p = true ↔ (p.x.Nonneg ∧ p.y.Nonneg ∧ p.z.Nonneg) ∧
      p.x.floor < 2 ^ g.worldBits.toNat ∧ p.y.floor < 2 ^ g.worldBits.toNat ∧
      p.z.floor < 2 ^ g.worldBits.toNat := by
  rw [inWorld, Bool.and_eq_true, Bool.and_eq_true, h.inside_iff, h.inside_iff, h.inside_iff]
  tauto

/-- No cube reaches beyond the world. -/
theorem inWorld_of_contains (h : g.Exact) (hq : q.depth ≤ g.depth)
    (hp : (g.cube q).contains p = true) : g.inWorld p = true := by
  obtain ⟨hnonneg, hcell⟩ := (h.contains_cube_iff hq).1 hp
  obtain ⟨hx, hy, hz⟩ := cell_lt q.digits
  have hedge := h.edgeAt_pos hq
  rw [hcell] at hx hy hz
  rw [h.inWorld_iff, ← h.pow_mul_edgeAt hq]
  refine ⟨hnonneg, ?_, ?_, ?_⟩
  · exact (Nat.div_lt_iff_lt_mul hedge).1 hx
  · exact (Nat.div_lt_iff_lt_mul hedge).1 hy
  · exact (Nat.div_lt_iff_lt_mul hedge).1 hz

theorem leafAt_eq (h : g.Exact) (hp : g.inWorld p = true) :
    g.leafAt p = .ok (.ok (g.leaf p.x.floor p.y.floor p.z.floor)) := by
  rw [leafAt, hp, if_neg (Nat.not_lt.2 h.levels)]
  rfl

theorem of_leafAt (h : g.Exact) {leaf : RegionPath} (hleaf : g.leafAt p = .ok (.ok leaf)) :
    g.inWorld p = true ∧ leaf = g.leaf p.x.floor p.y.floor p.z.floor := by
  cases hp : g.inWorld p with
  | false =>
      rw [leafAt, hp] at hleaf
      cases hleaf
  | true =>
      rw [h.leafAt_eq hp] at hleaf
      cases hleaf
      exact ⟨rfl, rfl⟩

/-- A cube holds a point of the world if its path leads to the point's leaf. -/
theorem contains_iff (h : g.Exact) (hp : g.inWorld p = true) (hq : q.depth ≤ g.depth) :
    (g.cube q).contains p = true ↔ q.contains (g.leaf p.x.floor p.y.floor p.z.floor) = true := by
  obtain ⟨hnonneg, hx, hy, hz⟩ := h.inWorld_iff.1 hp
  have htake : (g.leaf p.x.floor p.y.floor p.z.floor).digits.take q.digits.length =
      (List.range q.depth).map fun level =>
        octantAt (g.worldBits.toNat - 1 - level) p.x.floor p.y.floor p.z.floor :=
    g.take_leaf _ _ _ hq
  have hcell := cell_leaf (Nat.le_trans hq h.levels) hx hy hz
  rw [h.contains_cube_iff hq, and_iff_right hnonneg, h.edgeAt_eq hq, ← hcell, RegionPath.contains,
    List.isPrefixOf_iff_prefix, List.prefix_iff_eq_take, htake]
  refine ⟨cell_injective ?_, congrArg cell⟩
  rw [List.length_map, List.length_range]
  rfl

/-- Two paths of one depth have no point in both of their cubes. -/
theorem eq_of_contains (h : g.Exact) {q' : RegionPath} (hq : q.depth ≤ g.depth)
    (hdepth : q.depth = q'.depth) (hp : (g.cube q).contains p = true)
    (hp' : (g.cube q').contains p = true) : q = q' := by
  have hcell := ((h.contains_cube_iff hq).1 hp).2
  have hcell' := ((h.contains_cube_iff (hdepth ▸ hq)).1 hp').2
  rw [← hdepth, ← hcell] at hcell'
  exact congrArg RegionPath.mk (cell_injective hdepth hcell'.symm)

/-- A point of the world is in the cubes of all beginnings of its leaf. -/
theorem cubeOf_take (h : g.Exact) (hp : g.inWorld p = true) {depth : Nat} (hdepth : depth ≤ g.depth) :
    ∃ cube, g.cubeOf ⟨(g.leaf p.x.floor p.y.floor p.z.floor).digits.take depth⟩ = .ok (.ok cube) ∧
      cube.contains p = true := by
  have hreached : RegionPath.depth ⟨(g.leaf p.x.floor p.y.floor p.z.floor).digits.take depth⟩ ≤ g.depth :=
    Nat.le_trans (List.length_take_le ..) hdepth
  refine ⟨_, h.cubeOf_eq hreached, ?_⟩
  rw [h.contains_iff hp hreached, RegionPath.contains, List.isPrefixOf_iff_prefix]
  exact List.take_prefix ..

end Exact

/-- The regions of a depth partition the world. A point's leaf is one octant for each level; the cube
of a region holds the point if the region is the leaf or above it, so those of all ancestors do; no
point is in the cubes of two regions of one depth; and the points of the world are those in some cube
of it. -/
theorem regions_partition (h : g.Exact) :
    (∀ (p : Point) (leaf : RegionPath), g.leafAt p = .ok (.ok leaf) →
      leaf.depth = g.depth ∧ (∀ d ∈ leaf.digits, d.val ≤ 7) ∧
      (∀ q : RegionPath, q.depth ≤ g.depth →
        ∃ cube, g.cubeOf q = .ok (.ok cube) ∧ (cube.contains p = true ↔ q.contains leaf = true)) ∧
      ∀ levels, ∃ cube, g.cubeOf (leaf.ancestor levels) = .ok (.ok cube) ∧ cube.contains p = true) ∧
    (∀ (q q' : RegionPath) (cube cube' : Cube) (p : Point), q.depth = q'.depth →
      g.cubeOf q = .ok (.ok cube) → g.cubeOf q' = .ok (.ok cube') →
      cube.contains p = true → cube'.contains p = true → q = q') ∧
    ∀ depth ≤ g.depth, ∀ p : Point, g.inWorld p = true ↔
      ∃ (q : RegionPath) (cube : Cube), q.depth = depth ∧ g.cubeOf q = .ok (.ok cube) ∧
        cube.contains p = true := by
  refine ⟨fun p leaf hleaf => ?_, fun q q' cube cube' p hdepth hcube hcube' hp hp' => ?_,
    fun depth hdepth p => ⟨fun hp => ?_, fun ⟨q, cube, _, hcube, hp⟩ => ?_⟩⟩
  · obtain ⟨hp, rfl⟩ := h.of_leafAt hleaf
    refine ⟨g.depth_leaf .., fun d _ => Nat.le_of_lt_succ d.isLt, fun q hq => ?_, fun levels => ?_⟩
    · exact ⟨g.cube q, h.cubeOf_eq hq, h.contains_iff hp hq⟩
    · have hlevels : (g.leaf p.x.floor p.y.floor p.z.floor).depth - levels ≤ g.depth := by
        rw [g.depth_leaf]
        exact Nat.sub_le ..
      exact h.cubeOf_take hp hlevels
  · obtain ⟨hq, rfl⟩ := h.of_cubeOf hcube
    obtain ⟨-, rfl⟩ := h.of_cubeOf hcube'
    exact h.eq_of_contains hq hdepth hp hp'
  · have hlength : ((g.leaf p.x.floor p.y.floor p.z.floor).digits.take depth).length = depth := by
      rw [g.take_leaf _ _ _ hdepth, List.length_map, List.length_range]
    obtain ⟨cube, hcube, hcontains⟩ := h.cubeOf_take hp hdepth
    exact ⟨_, cube, hlength, hcube, hcontains⟩
  · obtain ⟨hq, rfl⟩ := h.of_cubeOf hcube
    exact h.inWorld_of_contains hq hp

/-- A point on the faces of its leaf's cube: of the two regions at its lower face it is in the one
above it. -/
theorem regions_partition_boundary :
    let p : Point := ⟨.ofNat 512, .ofNat 511, .ofNat 65535⟩
    standard.Exact ∧ standard.leafAt p = .ok (.ok ⟨[1, 1, 1, 1, 1, 1, 5]⟩) ∧
      (∃ cube, standard.cubeOf ⟨[1, 1, 1, 1, 1, 1, 5]⟩ = .ok (.ok cube) ∧ cube.contains p = true) ∧
      ∃ cube, standard.cubeOf ⟨[1, 1, 1, 1, 1, 1, 1]⟩ = .ok (.ok cube) ∧ cube.contains p = false := by
  have hexact : standard.Exact := ⟨by decide, by decide, by decide⟩
  have hleaf : standard.leafAt ⟨.ofNat 512, .ofNat 511, .ofNat 65535⟩ =
      .ok (.ok ⟨[1, 1, 1, 1, 1, 1, 5]⟩) := by
    decide +kernel
  obtain ⟨-, -, hcubes, -⟩ := (regions_partition hexact).1 _ _ hleaf
  obtain ⟨own, hown, howncontains⟩ := hcubes ⟨[1, 1, 1, 1, 1, 1, 5]⟩ (by decide)
  obtain ⟨below, hbelow, hbelowcontains⟩ := hcubes ⟨[1, 1, 1, 1, 1, 1, 1]⟩ (by decide)
  refine ⟨hexact, hleaf, ⟨own, hown, howncontains.2 (by decide)⟩, below, hbelow, ?_⟩
  exact Bool.eq_false_iff.2 fun h => absurd (hbelowcontains.1 h) (by decide)

end RegionSync.Geometry
