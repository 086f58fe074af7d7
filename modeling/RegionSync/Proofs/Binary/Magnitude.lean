import Mathlib.Tactic.Ring
import RegionSync.Binary.Elementary
import RegionSync.Proofs.Binary.Whole

/-!
How large results can be. Rounding does not go beyond a power of two, so sums, products, quotients and
conversions of numbers below powers of two are finite and below powers of two themselves, and so are
logarithms of positive numbers.
-/

namespace RegionSync

variable {w v : Width} {a b k m n i j : Nat}

theorem nearestEven_le_of_le (hb : 0 < b) (h : a ≤ k * b) : nearestEven a b ≤ k := by
  rcases Nat.lt_or_eq_of_le h with hlt | rfl
  · exact nearestEven_le hlt
  · exact (nearestEven_mul hb).le

theorem div_le_nearestEven (a b : Nat) : a / b ≤ nearestEven a b := by
  unfold nearestEven
  dsimp only
  split
  · exact Nat.le_refl _
  · exact Nat.le_succ _

namespace Width

/-- What is not above a power of two is not rounded above it. -/
theorem round_le_two_pow (hb : 0 < b) (h : a ≤ 2 ^ k * b) : w.round a b ≤ 2 ^ k := by
  have hlog : (a / b).log2 ≤ k := by
    by_cases hq : a / b = 0
    · simp [hq]
    · have hle : a / b ≤ 2 ^ k := Nat.div_le_of_le_mul (Nat.mul_comm b _ ▸ h)
      exact (Nat.pow_le_pow_iff_right (by decide)).1 ((Nat.log2_self_le hq).trans hle)
  have hprec := w.precision_pos
  unfold round
  dsimp only
  generalize he : (a / b).log2 + 1 - w.precision = e
  have hsplit : 2 ^ k = 2 ^ (k - e) * 2 ^ e := (Nat.pow_sub_mul_pow 2 (by omega)).symm
  rw [hsplit]
  refine Nat.mul_le_mul_right _ (nearestEven_le_of_le (Nat.mul_pos hb (Nat.pow_pos (by decide))) ?_)
  calc a ≤ 2 ^ k * b := h
    _ = 2 ^ (k - e) * (b * 2 ^ e) := by rw [hsplit]; ring

/-- What is not below a power of two is not rounded below it. -/
theorem two_pow_le_round (hb : 0 < b) (h : 2 ^ k * b ≤ a) : 2 ^ k ≤ w.round a b := by
  have hq : 2 ^ k ≤ a / b := (Nat.le_div_iff_mul_le hb).2 h
  have hpos : 0 < a / b := Nat.lt_of_lt_of_le (Nat.pow_pos (by decide)) hq
  have hlog : k ≤ (a / b).log2 := (Nat.le_log2 hpos.ne').2 hq
  have hprec := w.precision_pos
  unfold round
  dsimp only
  generalize he : (a / b).log2 + 1 - w.precision = e
  have hsplit : 2 ^ (a / b).log2 = 2 ^ ((a / b).log2 - e) * 2 ^ e :=
    (Nat.pow_sub_mul_pow 2 (by omega)).symm
  calc 2 ^ k ≤ 2 ^ (a / b).log2 := Nat.pow_le_pow_right (by decide) hlog
    _ = 2 ^ ((a / b).log2 - e) * 2 ^ e := hsplit
    _ ≤ a / b / 2 ^ e * 2 ^ e := by
        refine Nat.mul_le_mul_right _ ((Nat.le_div_iff_mul_le (Nat.pow_pos (by decide))).2 ?_)
        rw [← hsplit]
        exact Nat.log2_self_le hpos.ne'
    _ ≤ nearestEven a (b * 2 ^ e) * 2 ^ e := by
        rw [Nat.div_div_eq_div_mul]
        exact Nat.mul_le_mul_right _ (div_le_nearestEven ..)

end Width

namespace Binary

/-- The number is finite and its magnitude is at most a power of two. -/
def AtMost (m : Nat) (x : Binary w) : Prop :=
  ∃ negative n, ∃ h : w.Fits n, x = finite negative n h ∧ n ≤ 2 ^ (w.places + m)

/-- The number is finite and at least this power of two of units. -/
def AtLeast (k : Nat) (x : Binary w) : Prop :=
  ∃ n, ∃ h : w.Fits n, x = finite false n h ∧ 2 ^ k ≤ n

variable {x y : Binary w}

theorem AtMost.mono (h : x.AtMost m) (hmn : m ≤ n) : x.AtMost n := by
  obtain ⟨negative, u, hu, rfl, hle⟩ := h
  exact ⟨negative, u, hu, rfl, hle.trans (Nat.pow_le_pow_right (by decide) (by omega))⟩

theorem atMost_zero (m : Nat) : (zero : Binary w).AtMost m :=
  ⟨false, 0, w.fits_zero, rfl, Nat.zero_le _⟩

theorem AtMost.isFinite (h : x.AtMost m) : x.isFinite = true := by
  obtain ⟨negative, u, hu, rfl, -⟩ := h
  rfl

theorem AtMost.neg (h : x.AtMost m) : x.neg.AtMost m := by
  obtain ⟨negative, u, hu, rfl, hle⟩ := h
  exact ⟨!negative, u, hu, rfl, hle⟩

/-- What is rounded to at most a power of two of the width is finite. -/
theorem exists_ofUnits_eq (negative : Bool) (hm : w.places + m < w.span) (hb : 0 < b)
    (h : a ≤ 2 ^ (w.places + m) * b) :
    ∃ hfits, (ofUnits negative a b : Binary w) = finite negative (w.round a b) hfits := by
  have hspan : w.round a b < 2 ^ w.span :=
    (Width.round_le_two_pow hb h).trans_lt (Nat.pow_lt_pow_right (by decide) hm)
  refine ⟨⟨hspan, w.dvd_round a b⟩, ?_⟩
  unfold ofUnits
  simp only [hspan, ↓reduceDIte]

theorem atMost_ofUnits {negative : Bool} (hm : w.places + m < w.span) (hb : 0 < b)
    (h : a ≤ 2 ^ (w.places + m) * b) : (ofUnits negative a b : Binary w).AtMost m := by
  obtain ⟨hfits, heq⟩ := exists_ofUnits_eq negative hm hb h
  exact ⟨negative, _, hfits, heq, Width.round_le_two_pow hb h⟩

theorem atLeast_ofUnits (hm : w.places + m < w.span) (hb : 0 < b)
    (h : a ≤ 2 ^ (w.places + m) * b) (hk : 2 ^ k * b ≤ a) :
    (ofUnits false a b : Binary w).AtLeast k := by
  obtain ⟨hfits, heq⟩ := exists_ofUnits_eq false hm hb h
  exact ⟨_, hfits, heq, Width.two_pow_le_round hb hk⟩

theorem mul_one_le (h : a ≤ 2 ^ m * b) : a * w.one ≤ 2 ^ (w.places + m) * b := by
  calc a * w.one ≤ 2 ^ m * b * w.one := Nat.mul_le_mul_right _ h
    _ = 2 ^ (w.places + m) * b := by rw [Width.one, Nat.pow_add]; ring

theorem atMost_ofRatio {negative : Bool} (hm : w.places + m < w.span) (hb : 0 < b)
    (h : a ≤ 2 ^ m * b) : (ofRatio negative a b : Binary w).AtMost m :=
  atMost_ofUnits hm hb (mul_one_le h)

theorem atLeast_ofRatio (hm : w.places + m < w.span) (hb : 0 < b) (h : a ≤ 2 ^ m * b)
    (hk : 2 ^ k * b ≤ a * w.one) : (ofRatio false a b : Binary w).AtLeast k :=
  atLeast_ofUnits hm hb (mul_one_le h) hk

theorem AtMost.mul (hx : x.AtMost i) (hy : y.AtMost j) (hm : w.places + (i + j) < w.span) :
    (x.mul y).AtMost (i + j) := by
  obtain ⟨s, u, hu, rfl, hule⟩ := hx
  obtain ⟨t, v, hv, rfl, hvle⟩ := hy
  refine atMost_ofUnits hm w.one_pos ?_
  calc u * v ≤ 2 ^ (w.places + i) * 2 ^ (w.places + j) := Nat.mul_le_mul hule hvle
    _ = 2 ^ (w.places + (i + j)) * w.one := by rw [Width.one, ← Nat.pow_add, ← Nat.pow_add]; congr 1; ring

/-- Divisors from one on. -/
theorem AtMost.div (hx : x.AtMost m) (hy : y.AtLeast w.places) (hm : w.places + m < w.span) :
    (x.div y).AtMost m := by
  obtain ⟨s, u, hu, rfl, hule⟩ := hx
  obtain ⟨v, hv, rfl, hone⟩ := hy
  have hpos : 0 < v := Nat.lt_of_lt_of_le w.one_pos hone
  rw [Binary.div, if_neg hpos.ne']
  exact atMost_ofUnits hm hpos (Nat.mul_le_mul hule hone)

theorem AtMost.add (hx : x.AtMost m) (hy : y.AtMost m) (hm : w.places + (m + 1) < w.span) :
    (x.add y).AtMost (m + 1) := by
  obtain ⟨s, u, hu, rfl, hule⟩ := hx
  obtain ⟨t, v, hv, rfl, hvle⟩ := hy
  refine atMost_ofUnits hm Nat.one_pos ?_
  have hsum : (signed s u + signed t v).natAbs ≤ u + v := by
    cases s <;> cases t <;> simp only [signed] <;> omega
  calc (signed s u + signed t v).natAbs ≤ u + v := hsum
    _ ≤ 2 ^ (w.places + m) + 2 ^ (w.places + m) := Nat.add_le_add hule hvle
    _ = 2 ^ (w.places + (m + 1)) * 1 := by rw [← Nat.add_assoc, Nat.pow_succ]; ring

theorem AtMost.sub (hx : x.AtMost m) (hy : y.AtMost m) (hm : w.places + (m + 1) < w.span) :
    (x.sub y).AtMost (m + 1) :=
  hx.add hy.neg hm

theorem AtMost.convert (hx : x.AtMost m) (hm : v.places + m < v.span) : (x.convert v).AtMost m := by
  obtain ⟨s, u, hu, rfl, hule⟩ := hx
  refine atMost_ofUnits hm w.one_pos ?_
  calc u * v.one ≤ 2 ^ (w.places + m) * v.one := Nat.mul_le_mul_right _ hule
    _ = 2 ^ (v.places + m) * w.one := by rw [Width.one, Width.one, Nat.pow_add, Nat.pow_add]; ring

/-! Logarithms. -/

theorem atanhSum_le {p square : Nat} (hsquare : square ≤ 2 ^ p) (fuel i term : Nat) :
    atanhSum p square fuel i term ≤ fuel * term := by
  induction fuel generalizing i term with
  | zero => exact Nat.zero_le _
  | succ fuel ih =>
      rw [atanhSum]
      split
      · exact Nat.zero_le _
      · have hterm : term * square / 2 ^ p ≤ term := by
          apply Nat.div_le_of_le_mul
          rw [Nat.mul_comm]
          exact Nat.mul_le_mul_right term hsquare
        calc term / (2 * i + 1) + atanhSum p square fuel (i + 1) (term * square / 2 ^ p)
            ≤ term + fuel * term :=
              Nat.add_le_add (Nat.div_le_self ..) ((ih _ _).trans (Nat.mul_le_mul_left fuel hterm))
          _ = (fuel + 1) * term := by ring

theorem logRatio_le {p z : Nat} (hz : z ≤ 2 ^ p) : logRatio p z ≤ 2 * (p * 2 ^ p) := by
  have hsquare : z * z / 2 ^ p ≤ 2 ^ p := Nat.div_le_of_le_mul (Nat.mul_le_mul hz hz)
  exact Nat.mul_le_mul_left 2 ((atanhSum_le hsquare p 0 z).trans (Nat.mul_le_mul_left p hz))

/-- The sum for the leading digits, and one for each place that the leading digit is away from one. -/
theorem natAbs_logUnits_le (p n e : Nat) :
    (logUnits p n e).natAbs ≤ 2 * (p * 2 ^ p) * (1 + ((n.log2 : Int) - e).natAbs) := by
  have hz : (n - 2 ^ n.log2) * 2 ^ p / (n + 2 ^ n.log2) ≤ 2 ^ p :=
    Nat.div_le_of_le_mul
      (Nat.mul_le_mul_right _ ((Nat.sub_le _ _).trans (Nat.le_add_right _ _)))
  have hdigits := logRatio_le hz
  have htwo := logRatio_le (Nat.div_le_self (2 ^ p) 3)
  unfold logUnits
  dsimp only
  calc ((logRatio p ((n - 2 ^ n.log2) * 2 ^ p / (n + 2 ^ n.log2)) : Int) +
          ((n.log2 : Int) - e) * (logRatio p (2 ^ p / 3) : Nat)).natAbs
      ≤ logRatio p ((n - 2 ^ n.log2) * 2 ^ p / (n + 2 ^ n.log2)) +
          ((n.log2 : Int) - e).natAbs * logRatio p (2 ^ p / 3) := by
        refine (Int.natAbs_add_le _ _).trans (Nat.add_le_add (Nat.le_refl _) ?_)
        rw [Int.natAbs_mul]
        exact Nat.le_refl _
    _ ≤ 2 * (p * 2 ^ p) + ((n.log2 : Int) - e).natAbs * (2 * (p * 2 ^ p)) :=
        Nat.add_le_add hdigits (Nat.mul_le_mul_left _ htwo)
    _ = 2 * (p * 2 ^ p) * (1 + ((n.log2 : Int) - e).natAbs) := by ring

/-- The logarithm of a positive number. -/
theorem AtLeast.log (hx : x.AtLeast 0) : x.log.AtMost 22 := by
  obtain ⟨n, h, rfl, hpos⟩ := hx
  have hpos : 0 < n := hpos
  have hlog : n.log2 < w.span := (Nat.log2_lt hpos.ne').2 h.1
  rw [Binary.log, if_neg hpos.ne']
  refine atMost_ofRatio (by cases w <;> decide) (Nat.pow_pos (by decide)) ?_
  refine (natAbs_logUnits_le ..).trans ?_
  have hfar : ((n.log2 : Int) - w.places).natAbs ≤ 1074 := by
    cases w <;> simp only [Width.span, Width.places] at hlog ⊢ <;> omega
  have hsmall : 2 * seriesPlaces w * (1 + 1074) ≤ 2 ^ 22 := by cases w <;> decide
  calc 2 * (seriesPlaces w * 2 ^ seriesPlaces w) * (1 + ((n.log2 : Int) - w.places).natAbs)
      ≤ 2 * (seriesPlaces w * 2 ^ seriesPlaces w) * (1 + 1074) :=
        Nat.mul_le_mul_left _ (Nat.add_le_add_left hfar 1)
    _ = 2 * seriesPlaces w * (1 + 1074) * 2 ^ seriesPlaces w := by ring
    _ ≤ 2 ^ 22 * 2 ^ seriesPlaces w := Nat.mul_le_mul_right _ hsmall

end Binary

end RegionSync
