import RegionSync.Proofs.Position.Window
import RegionSync.Proofs.Region.Geometry

/-!
Regions by words of 32 bits. The world, its leaves and its cubes are computed in words, whose shifts
and differences can fail; what the geometry says of them in whole numbers is what the words give,
fault for fault, as long as the geometry was accepted. A depth of 2^32 and more is accepted for its
low 32 bits, and these are the geometries with faults.
-/

namespace RegionSync

namespace Word

/-- The word moved up by fewer places than it has. -/
def shiftLeft (a places : UInt32) : Except Fault UInt32 :=
  if places.toNat < 32 then .ok (a <<< places) else .error .overflow

/-- The word moved down by fewer places than it has. -/
def shiftRight (a places : UInt32) : Except Fault UInt32 :=
  if places.toNat < 32 then .ok (a >>> places) else .error .overflow

/-- The product, if it is a word. -/
def mul (a b : UInt32) : Except Fault UInt32 :=
  if a.toNat * b.toNat < 2 ^ 32 then .ok (a * b) else .error .overflow

variable {a b places : UInt32}

theorem sub_of_lt (h : a.toNat < b.toNat) : sub a b = .error .overflow :=
  if_neg (Nat.not_le.2 h)

theorem exists_shiftLeft_one (h : places.toNat < 32) :
    ∃ c, shiftLeft 1 places = .ok c ∧ c.toNat = 2 ^ places.toNat := by
  refine ⟨_, if_pos h, ?_⟩
  rw [UInt32.toNat_shiftLeft, Nat.mod_eq_of_lt h, UInt32.toNat_one, Nat.shiftLeft_eq, Nat.one_mul]
  exact Nat.mod_eq_of_lt (Nat.pow_lt_pow_right (by decide) h)

theorem exists_mul (h : a.toNat * b.toNat < 2 ^ 32) :
    ∃ c, mul a b = .ok c ∧ c.toNat = a.toNat * b.toNat := by
  refine ⟨_, if_pos h, ?_⟩
  rw [UInt32.toNat_mul, Nat.mod_eq_of_lt h]

end Word

namespace Geometry

variable {g : Geometry} {depth level : Nat} {worldBits x y z : UInt32} {p : Point} {q : RegionPath}

/-! The computations. -/

/-- The edge of the world. -/
def wordExtent (g : Geometry) : Except Fault UInt32 :=
  Word.shiftLeft 1 g.worldBits

/-- The edge of a region this many levels below the root. -/
def wordEdge (g : Geometry) (depth : Nat) : Except Fault UInt32 := do
  Word.shiftLeft 1 (← Word.sub g.worldBits (UInt32.ofNat depth))

/-- The bit of a coordinate at this place. -/
def wordBit (shift c : UInt32) : Except Fault UInt32 := do
  return (← Word.shiftRight c shift) &&& 1

/-- The octant of coordinates at a level. -/
def wordOctant (g : Geometry) (x y z : UInt32) (level : Nat) : Except Fault OctantIndex := do
  let shift ← Word.sub (← Word.sub g.worldBits 1) (UInt32.ofNat level)
  let x ← wordBit shift x
  let y ← wordBit shift y
  let z ← wordBit shift z
  return Fin.ofNat 8 (x <<< 2 ||| y <<< 1 ||| z).toNat

/-- The leaf of coordinates. -/
def wordLeaf (g : Geometry) (x y z : UInt32) : Except Fault RegionPath := do
  return ⟨← (List.range g.depth).mapM (g.wordOctant x y z)⟩

/-- The cell of a path at its own depth. -/
def wordCell (digits : List OctantIndex) : UInt32 × UInt32 × UInt32 :=
  digits.foldl (fun (x, y, z) d =>
    (x <<< 1 ||| (UInt32.ofNat d.val >>> 2) &&& 1, y <<< 1 ||| (UInt32.ofNat d.val >>> 1) &&& 1,
      z <<< 1 ||| UInt32.ofNat d.val &&& 1)) (0, 0, 0)

/-- The cube of a region. -/
def wordCube (g : Geometry) (q : RegionPath) : Except Fault Cube := do
  let size ← g.wordEdge q.depth
  let (x, y, z) := wordCell q.digits
  let x ← Word.mul x size
  let y ← Word.mul y size
  let z ← Word.mul z size
  return ⟨⟨.ofNat x.toNat, .ofNat y.toNat, .ofNat z.toNat⟩, .ofNat size.toNat⟩

/-! What is accepted. -/

theorem make_eq_ok_iff : make depth worldBits = .ok g ↔ g = ⟨depth, worldBits⟩ ∧
    1 ≤ depth ∧ worldBits.toNat ≤ 24 ∧ depth % 2 ^ 32 ≤ worldBits.toNat := by
  have hbits : 24 < worldBits ↔ 24 < worldBits.toNat := UInt32.lt_iff_toNat_lt
  have hdepth : worldBits < UInt32.ofNat depth ↔ worldBits.toNat < depth % 2 ^ 32 := by
    rw [UInt32.lt_iff_toNat_lt, UInt32.toNat_ofNat']
  simp only [make, hbits, hdepth]
  constructor
  · intro h
    split at h
    · cases h
    · next hnone =>
        cases h
        exact ⟨rfl, by omega, by omega, by omega⟩
  · rintro ⟨rfl, hpos, hsmall, hlevels⟩
    exact if_neg (by omega)

/-- The geometry was accepted. -/
structure Accepted (g : Geometry) : Prop where
  pos : 1 ≤ g.depth
  bits : g.worldBits.toNat ≤ 24
  levels : g.depth % 2 ^ 32 ≤ g.worldBits.toNat

theorem accepted_of_make (h : make depth worldBits = .ok g) : g.Accepted := by
  obtain ⟨rfl, hpos, hbits, hlevels⟩ := make_eq_ok_iff.1 h
  exact ⟨hpos, hbits, hlevels⟩

/-! Edges. -/

namespace Accepted

/-- An accepted geometry is exact if its depth is a word. -/
theorem exact_iff (h : g.Accepted) : g.Exact ↔ g.depth < 2 ^ 32 := by
  constructor
  · exact fun hexact => hexact.lt_of_le (Nat.le_refl _)
  · intro hdepth
    have hlevels := h.levels
    rw [Nat.mod_eq_of_lt hdepth] at hlevels
    exact ⟨h.pos, hlevels, h.bits⟩

theorem wordExtent (h : g.Accepted) :
    ∃ edge, g.wordExtent = .ok edge ∧ g.extent = .ofNat edge.toNat := by
  have hshort : g.worldBits.toNat < 32 := Nat.lt_of_le_of_lt h.bits (by decide)
  obtain ⟨edge, hedge, hedgeN⟩ := Word.exists_shiftLeft_one hshort
  exact ⟨edge, hedge, by rw [hedgeN, extent]⟩

theorem wordEdge (h : g.Accepted) (hdepth : depth % 2 ^ 32 ≤ g.worldBits.toNat) :
    ∃ edge, g.wordEdge depth = .ok edge ∧ edge.toNat = g.edgeAt depth := by
  have hbits := h.bits
  obtain ⟨below, hbelow, hbelowN⟩ := Word.exists_sub (a := g.worldBits) (b := UInt32.ofNat depth)
    (by rw [UInt32.toNat_ofNat']; exact hdepth)
  rw [UInt32.toNat_ofNat'] at hbelowN
  have hshort : below.toNat < 32 := by omega
  obtain ⟨edge, hedge, hedgeN⟩ := Word.exists_shiftLeft_one hshort
  refine ⟨edge, ?_, by rw [hedgeN, hbelowN, edgeAt]⟩
  rw [Geometry.wordEdge, hbelow]
  exact hedge

end Accepted

theorem wordEdge_of_lt (h : g.worldBits.toNat < depth % 2 ^ 32) :
    g.wordEdge depth = .error .overflow := by
  rw [wordEdge, Word.sub_of_lt (by rw [UInt32.toNat_ofNat']; exact h)]
  rfl

/-! Leaves. -/

theorem wordBit_eq {shift : UInt32} (h : shift.toNat < 32) (c : UInt32) :
    ∃ bit, wordBit shift c = .ok bit ∧ bit.toNat = bitAt shift.toNat c.toNat := by
  refine ⟨(c >>> shift) &&& 1, ?_, ?_⟩
  · rw [wordBit, Word.shiftRight, if_pos h]
    rfl
  · rw [UInt32.toNat_and, UInt32.toNat_shiftRight, Nat.mod_eq_of_lt h, Nat.shiftRight_eq_div_pow,
      UInt32.toNat_one, Nat.and_one_is_mod, bitAt]

theorem eq_zero_or_one {bit : UInt32} (h : bit.toNat < 2) : bit = 0 ∨ bit = 1 := by
  rcases Nat.lt_succ_iff_lt_or_eq.1 h with h | h
  · exact .inl (UInt32.toNat_inj.1 (Nat.lt_one_iff.1 h))
  · exact .inr (UInt32.toNat_inj.1 h)

/-- Bits put side by side. -/
theorem toNat_or_bits {x y z : UInt32} (hx : x.toNat < 2) (hy : y.toNat < 2) (hz : z.toNat < 2) :
    (x <<< 2 ||| y <<< 1 ||| z).toNat = x.toNat * 4 + y.toNat * 2 + z.toNat := by
  rcases eq_zero_or_one hx with rfl | rfl <;> rcases eq_zero_or_one hy with rfl | rfl <;>
    rcases eq_zero_or_one hz with rfl | rfl <;> rfl

theorem Accepted.wordOctant (h : g.Accepted) (x y z : UInt32)
    (hlevel : level % 2 ^ 32 < g.worldBits.toNat) :
    g.wordOctant x y z level =
      .ok (octantAt (g.worldBits.toNat - 1 - level % 2 ^ 32) x.toNat y.toNat z.toNat) := by
  have hbits := h.bits
  have hone : (1 : UInt32).toNat = 1 := rfl
  obtain ⟨top, htop, htopN⟩ := Word.exists_sub (a := g.worldBits) (b := 1) (by omega)
  obtain ⟨shift, hshift, hshiftN⟩ := Word.exists_sub (a := top) (b := UInt32.ofNat level)
    (by rw [UInt32.toNat_ofNat']; omega)
  rw [UInt32.toNat_ofNat', htopN, hone] at hshiftN
  have hshort : shift.toNat < 32 := by omega
  obtain ⟨_, hx, hxN⟩ := wordBit_eq hshort x
  obtain ⟨_, hy, hyN⟩ := wordBit_eq hshort y
  obtain ⟨_, hz, hzN⟩ := wordBit_eq hshort z
  have hlt := bitAt_lt shift.toNat
  simp only [Geometry.wordOctant, htop, hshift, hx, hy, hz, bind, Except.bind, pure, Except.pure]
  congr 1
  apply Fin.ext
  rw [Fin.val_ofNat, toNat_or_bits (hxN ▸ hlt _) (hyN ▸ hlt _) (hzN ▸ hlt _), hxN, hyN, hzN,
    hshiftN]
  exact Nat.mod_eq_of_lt (octantAt (g.worldBits.toNat - 1 - level % 2 ^ 32) _ _ _).isLt

/-- Below the lowest bit there is no level. -/
theorem wordOctant_of_le (x y z : UInt32) (hlevel : g.worldBits.toNat ≤ level % 2 ^ 32) :
    g.wordOctant x y z level = .error .overflow := by
  have hone : (1 : UInt32).toNat = 1 := rfl
  rw [wordOctant]
  by_cases hzero : g.worldBits.toNat = 0
  · rw [Word.sub_of_lt (by omega)]
    rfl
  · obtain ⟨top, htop, htopN⟩ := Word.exists_sub (a := g.worldBits) (b := 1) (by omega)
    rw [htop]
    simp only [bind, Except.bind]
    rw [Word.sub_of_lt (by rw [UInt32.toNat_ofNat']; omega)]

theorem mapM_eq_ok_map {ε α β : Type} {f : α → Except ε β} {f' : α → β} {l : List α}
    (h : ∀ a ∈ l, f a = .ok (f' a)) : l.mapM f = .ok (l.map f') := by
  induction l with
  | nil => rfl
  | cons a l ih =>
      rw [List.mapM_cons, h a List.mem_cons_self,
        ih fun b hb => h b (List.mem_cons_of_mem _ hb)]
      rfl

/-- A list that can fail in one way only fails if one of its members does. -/
theorem mapM_eq_error {ε α β : Type} {f : α → Except ε β} {e : ε} {l : List α}
    (hone : ∀ a ∈ l, (∃ b, f a = .ok b) ∨ f a = .error e) (h : ∃ a ∈ l, f a = .error e) :
    l.mapM f = .error e := by
  induction l with
  | nil => simp at h
  | cons a l ih =>
      rw [List.mapM_cons]
      rcases hone a List.mem_cons_self with ⟨b, hb⟩ | hfails
      · have hlater : ∃ a ∈ l, f a = .error e := by
          obtain ⟨c, hc, hfails⟩ := h
          rcases List.mem_cons.1 hc with rfl | hc
          · rw [hb] at hfails
            cases hfails
          · exact ⟨c, hc, hfails⟩
        rw [hb, ih (fun c hc => hone c (List.mem_cons_of_mem _ hc)) hlater]
        rfl
      · rw [hfails]
        rfl

theorem Exact.wordLeaf (h : g.Exact) (x y z : UInt32) :
    g.wordLeaf x y z = .ok (g.leaf x.toNat y.toNat z.toNat) := by
  have hlevels := h.levels
  have hbits := h.bits
  have haccepted : g.Accepted :=
    ⟨h.pos, hbits, Nat.le_trans (Nat.mod_le ..) hlevels⟩
  have hoctants : ∀ level ∈ List.range g.depth, g.wordOctant x y z level =
      .ok (octantAt (g.worldBits.toNat - 1 - level) x.toNat y.toNat z.toNat) := by
    intro level hlevel
    have hlt := List.mem_range.1 hlevel
    have hword : level % 2 ^ 32 = level := Nat.mod_eq_of_lt (by omega)
    rw [haccepted.wordOctant x y z (by omega), hword]
  rw [Geometry.wordLeaf, mapM_eq_ok_map hoctants]
  rfl

/-- A depth above the bits of the world asks for a bit below the lowest. -/
theorem Accepted.wordLeaf_of_lt (h : g.Accepted) (hdeep : g.worldBits.toNat < g.depth)
    (x y z : UInt32) : g.wordLeaf x y z = .error .overflow := by
  have hbits := h.bits
  have hone : ∀ level ∈ List.range g.depth, (∃ d, g.wordOctant x y z level = .ok d) ∨
      g.wordOctant x y z level = .error .overflow := by
    intro level _
    rcases Nat.lt_or_ge (level % 2 ^ 32) g.worldBits.toNat with hlt | hge
    · exact .inl ⟨_, h.wordOctant x y z hlt⟩
    · exact .inr (wordOctant_of_le x y z hge)
  have hlowest : g.wordOctant x y z g.worldBits.toNat = .error .overflow :=
    wordOctant_of_le x y z (by omega)
  rw [Geometry.wordLeaf, mapM_eq_error hone ⟨_, List.mem_range.2 hdeep, hlowest⟩]
  rfl

/-! Cubes. -/

/-- One bit more of an axis. -/
theorem toNat_next_bit {c bit : UInt32} {n : Nat} (hc : c.toNat < 2 ^ n) (hn : n < 31)
    (hbit : bit.toNat < 2) : (c <<< 1 ||| bit).toNat = 2 * c.toNat + bit.toNat := by
  have hpow : 2 ^ n ≤ 2 ^ 30 := Nat.pow_le_pow_right (by decide) (by omega)
  have hdouble : (c <<< 1).toNat = 2 * c.toNat := by
    rw [UInt32.toNat_shiftLeft, show (1 : UInt32).toNat % 32 = 1 from rfl, Nat.shiftLeft_eq]
    omega
  rw [UInt32.toNat_or, hdouble]
  exact (Nat.two_pow_add_eq_or_of_lt (i := 1) hbit c.toNat).symm

theorem toNat_digit_bits (d : OctantIndex) :
    ((UInt32.ofNat d.val >>> 2) &&& 1).toNat = d.val / 4 % 2 ∧
      ((UInt32.ofNat d.val >>> 1) &&& 1).toNat = d.val / 2 % 2 ∧
      (UInt32.ofNat d.val &&& 1).toNat = d.val % 2 := by
  revert d
  decide

/-- The words of a cell are its numbers while these are words. -/
theorem wordCell_eq {digits : List OctantIndex} (h : digits.length < 32) :
    (wordCell digits).1.toNat = (cell digits).1 ∧ (wordCell digits).2.1.toNat = (cell digits).2.1 ∧
      (wordCell digits).2.2.toNat = (cell digits).2.2 := by
  induction digits using List.reverseRecOn with
  | nil => decide
  | append_singleton digits d ih =>
      rw [List.length_append, List.length_singleton] at h
      obtain ⟨hx, hy, hz⟩ := ih (by omega)
      obtain ⟨hlx, hly, hlz⟩ := cell_lt digits
      obtain ⟨hdx, hdy, hdz⟩ := toNat_digit_bits d
      rw [cell_append, wordCell, List.foldl_append]
      refine ⟨?_, ?_, ?_⟩
      · refine (toNat_next_bit (hx ▸ hlx) (by omega) (by omega)).trans ?_
        rw [hdx]
        exact congrArg (2 * · + d.val / 4 % 2) hx
      · refine (toNat_next_bit (hy ▸ hly) (by omega) (by omega)).trans ?_
        rw [hdy]
        exact congrArg (2 * · + d.val / 2 % 2) hy
      · refine (toNat_next_bit (hz ▸ hlz) (by omega) (by omega)).trans ?_
        rw [hdz]
        exact congrArg (2 * · + d.val % 2) hz

theorem Accepted.wordCube (h : g.Accepted) (hq : q.depth ≤ g.worldBits.toNat) :
    g.wordCube q = .ok (g.cube q) := by
  have hbits := h.bits
  have hword : q.depth % 2 ^ 32 = q.depth := Nat.mod_eq_of_lt (by omega)
  obtain ⟨size, hsize, hsizeN⟩ := h.wordEdge (hword.symm ▸ hq)
  have hfits : ∀ c < 2 ^ q.depth, c * g.edgeAt q.depth < 2 ^ 32 := by
    intro c hc
    calc c * g.edgeAt q.depth < 2 ^ q.depth * g.edgeAt q.depth :=
          Nat.mul_lt_mul_of_pos_right hc (Nat.pow_pos (by decide))
      _ = 2 ^ g.worldBits.toNat := by
          rw [edgeAt, hword, ← Nat.pow_add, Nat.add_sub_cancel' hq]
      _ ≤ 2 ^ 32 := Nat.pow_le_pow_right (by decide) (by omega)
  have hlength : q.digits.length < 32 := Nat.lt_of_le_of_lt hq (by omega)
  obtain ⟨hcx, hcy, hcz⟩ := wordCell_eq hlength
  obtain ⟨hlx, hly, hlz⟩ := cell_lt q.digits
  obtain ⟨x, hx, hxN⟩ := Word.exists_mul (a := (wordCell q.digits).1) (b := size)
    (by rw [hcx, hsizeN]; exact hfits _ hlx)
  obtain ⟨y, hy, hyN⟩ := Word.exists_mul (a := (wordCell q.digits).2.1) (b := size)
    (by rw [hcy, hsizeN]; exact hfits _ hly)
  obtain ⟨z, hz, hzN⟩ := Word.exists_mul (a := (wordCell q.digits).2.2) (b := size)
    (by rw [hcz, hsizeN]; exact hfits _ hlz)
  simp only [Geometry.wordCube, hsize, hx, hy, hz, bind, Except.bind, pure, Except.pure, hxN, hyN,
    hzN, hcx, hcy, hcz, hsizeN, cube]

/-! The geometry, fault for fault. -/

/-- What the geometry says in whole numbers is what its words give. -/
structure ByWords (g : Geometry) : Prop where
  extent : ∃ edge, g.wordExtent = .ok edge ∧ g.extent = .ofNat edge.toNat
  leafSize : ∃ edge, g.wordEdge g.depth = .ok edge ∧ g.leafSize = .ofNat edge.toNat
  leaf : ∀ p : Point, g.inWorld p = true → g.leafAt p =
    (g.wordLeaf (.ofNat p.x.floor) (.ofNat p.y.floor) (.ofNat p.z.floor)).map .ok
  cube : ∀ q : RegionPath, q.depth ≤ g.depth → q.depth < 2 ^ 32 →
    g.cubeOf q = (g.wordCube q).map .ok

theorem leafAt_of_lt (hdeep : g.worldBits.toNat < g.depth) (hp : g.inWorld p = true) :
    g.leafAt p = .error .overflow := by
  rw [leafAt, hp, if_pos hdeep]
  rfl

theorem leafAt_outside (hp : ¬ g.inWorld p = true) : g.leafAt p = .ok (.error (.outOfWorld p)) := by
  rw [leafAt, Bool.eq_false_iff.2 hp]
  rfl

theorem cubeOf_of_lt (hdeep : g.worldBits.toNat < q.depth) (hq : q.depth ≤ g.depth)
    (hword : q.depth < 2 ^ 32) : g.cubeOf q = .error .overflow := by
  rw [cubeOf, if_neg (Nat.not_lt.2 hq), Nat.mod_eq_of_lt hword, if_pos hdeep]

theorem cubeOf_tooDeep (hq : g.depth < q.depth) :
    g.cubeOf q = .ok (.error (.tooDeep q.depth g.depth)) :=
  if_pos hq

theorem Accepted.byWords (h : g.Accepted) : g.ByWords where
  extent := h.wordExtent
  leafSize := by
    obtain ⟨edge, hedge, hedgeN⟩ := h.wordEdge h.levels
    exact ⟨edge, hedge, by rw [hedgeN, Geometry.leafSize]⟩
  leaf p hp := by
    rcases Nat.lt_or_ge g.worldBits.toNat g.depth with hdeep | hlevels
    · rw [leafAt_of_lt hdeep hp, h.wordLeaf_of_lt hdeep]
      rfl
    · have hexact : g.Exact := ⟨h.pos, hlevels, h.bits⟩
      have hbits := h.bits
      have hword : ∀ n < 2 ^ g.worldBits.toNat, (UInt32.ofNat n).toNat = n := by
        intro n hn
        rw [UInt32.toNat_ofNat']
        exact Nat.mod_eq_of_lt
          (Nat.lt_of_lt_of_le hn (Nat.pow_le_pow_right (by decide) (by omega)))
      obtain ⟨-, hx, hy, hz⟩ := hexact.inWorld_iff.1 hp
      rw [hexact.leafAt_eq hp, hexact.wordLeaf, hword _ hx, hword _ hy, hword _ hz]
      rfl
  cube q hq hword := by
    rcases Nat.lt_or_ge g.worldBits.toNat q.depth with hdeep | hlevels
    · rw [cubeOf_of_lt hdeep hq hword, Geometry.wordCube,
        wordEdge_of_lt (by rw [Nat.mod_eq_of_lt hword]; exact hdeep)]
      rfl
    · rw [cubeOf, if_neg (Nat.not_lt.2 hq), Nat.mod_eq_of_lt hword, if_neg (Nat.not_lt.2 hlevels),
        h.wordCube hlevels]
      rfl

/-- No computation of the geometry fails, whatever it is asked for. -/
structure Faultless (g : Geometry) : Prop where
  extent : ∃ edge, g.wordExtent = .ok edge
  leafSize : ∃ edge, g.wordEdge g.depth = .ok edge
  leaf : ∀ x y z, ∃ leaf, g.wordLeaf x y z = .ok leaf
  leafAt : ∀ p, ∃ answer, g.leafAt p = .ok answer
  cubeOf : ∀ q, ∃ answer, g.cubeOf q = .ok answer

theorem lt_depth_of_le (hdepth : 2 ^ 32 ≤ g.depth) : g.worldBits.toNat < g.depth :=
  Nat.lt_of_lt_of_le g.worldBits.toNat_lt hdepth

theorem Accepted.faultless_iff (h : g.Accepted) : g.Faultless ↔ g.depth < 2 ^ 32 := by
  constructor
  · intro hfaultless
    by_contra hdepth
    obtain ⟨leaf, hleaf⟩ := hfaultless.leaf 0 0 0
    rw [h.wordLeaf_of_lt (lt_depth_of_le (Nat.not_lt.1 hdepth))] at hleaf
    cases hleaf
  · intro hdepth
    have hexact := h.exact_iff.2 hdepth
    obtain ⟨extent, hextent, -⟩ := h.wordExtent
    obtain ⟨edge, hedge, -⟩ := h.wordEdge h.levels
    refine ⟨⟨extent, hextent⟩, ⟨edge, hedge⟩, fun x y z => ⟨_, hexact.wordLeaf x y z⟩,
      fun p => ?_, fun q => ?_⟩
    · by_cases hp : g.inWorld p = true
      · exact ⟨_, hexact.leafAt_eq hp⟩
      · exact ⟨_, leafAt_outside hp⟩
    · rcases Nat.lt_or_ge g.depth q.depth with hdeep | hq
      · exact ⟨_, cubeOf_tooDeep hdeep⟩
      · exact ⟨_, hexact.cubeOf_eq hq⟩

end Geometry

end RegionSync
