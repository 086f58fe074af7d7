import RegionSync.Binary.Arithmetic

/-!
Whole numbers among floating-point numbers. Those with no more digits than the width has are exact,
and so are their sums; which two of them a number lies between is told by its whole part.
-/

namespace RegionSync

variable {w : Width} {m n : Nat}

theorem Width.one_pos (w : Width) : 0 < w.one :=
  Nat.pow_pos (by decide)

theorem Width.fits_whole (h : n ≤ 2 ^ w.precision) : w.Fits (n * w.one) := by
  refine ⟨?_, Width.dvd_of_le_pow w.precision_pos h⟩
  calc n * w.one ≤ 2 ^ w.precision * 2 ^ w.places := Nat.mul_le_mul_right _ h
    _ = 2 ^ (w.precision + w.places) := (Nat.pow_add ..).symm
    _ < 2 ^ w.span := Nat.pow_lt_pow_right (by decide) (by cases w <;> decide)

namespace Binary

/-- A whole number that is not too large is exact. -/
theorem ofNat_eq (h : n ≤ 2 ^ w.precision) :
    (ofNat n : Binary w) = finite false (n * w.one) (w.fits_whole h) := by
  rw [ofNat, ofRatio, ofUnits_one (w.fits_whole h)]

theorem ofNat_zero : (ofNat 0 : Binary w) = zero := by
  rw [ofNat_eq (Nat.zero_le _), zero]
  simp only [Nat.zero_mul]

theorem add_ofNat (h : m + n ≤ 2 ^ w.precision) :
    (ofNat m : Binary w).add (ofNat n) = ofNat (m + n) := by
  have hsum : signed false (m * w.one) + signed false (n * w.one) = ((m + n) * w.one : Nat) := by
    rw [Nat.add_mul]
    rfl
  have hpositive : ¬ ((((m + n) * w.one : Nat) : Int) < 0) := by omega
  rw [ofNat_eq (by omega), ofNat_eq (by omega), ofNat_eq h, ← ofUnits_one (w.fits_whole h)]
  simp only [add, hsum, ofInt, hpositive, decide_false, Bool.and_false, ite_self, Int.natAbs_natCast]

theorem le_finite_iff {negative negative' : Bool} {a b : Nat} {ha : w.Fits a} {hb : w.Fits b} :
    le (finite negative a ha) (finite negative' b hb) = true ↔
      signed negative a ≤ signed negative' b := by
  simp only [le, lt, eq, Bool.or_eq_true, decide_eq_true_eq, beq_iff_eq]
  omega

theorem lt_finite_iff {negative negative' : Bool} {a b : Nat} {ha : w.Fits a} {hb : w.Fits b} :
    lt (finite negative a ha) (finite negative' b hb) = true ↔
      signed negative a < signed negative' b := by
  simp only [lt, decide_eq_true_eq]

/-- The number is finite and not below zero; both zeros are. -/
def Nonneg (c : Binary w) : Prop :=
  ∃ v, c.units? = some v ∧ 0 ≤ v

/-- A number lies between two whole numbers if its whole part does. -/
theorem between_ofNat_iff (hm : m ≤ 2 ^ w.precision) (hn : n ≤ 2 ^ w.precision) {c : Binary w} :
    (le (ofNat m) c && lt c (ofNat n)) = true ↔ c.Nonneg ∧ m ≤ c.floor ∧ c.floor < n := by
  have hone := w.one_pos
  rw [ofNat_eq hm, ofNat_eq hn]
  cases c with
  | nan => simp [le, lt, eq, Nonneg, units?]
  | infinite negative => cases negative <;> simp [le, lt, eq, Nonneg, units?]
  | finite negative u hu =>
      rw [Bool.and_eq_true, le_finite_iff, lt_finite_iff]
      cases negative with
      | false =>
          have hnonneg : (finite false u hu).Nonneg := ⟨u, rfl, Int.natCast_nonneg u⟩
          rw [and_iff_right hnonneg, floor, Nat.le_div_iff_mul_le hone,
            Nat.div_lt_iff_lt_mul hone]
          exact and_congr Int.ofNat_le Int.ofNat_lt
      | true =>
          -- only the negative zero is not below zero
          have hnonneg : (finite true u hu).Nonneg ↔ u = 0 := by
            simp [Nonneg, units?]
          have hzero : m * w.one = 0 ↔ m = 0 := by
            rw [Nat.mul_eq_zero, or_iff_left (Nat.ne_of_gt hone)]
          have hpos : 0 < n * w.one ↔ 0 < n := Nat.mul_pos_iff_of_pos_right hone
          have hfloor : (finite true u hu).floor = 0 := rfl
          rw [hnonneg, hfloor, Nat.le_zero, ← hzero, ← hpos]
          show ((m * w.one : Nat) : Int) ≤ -(u : Int) ∧ -(u : Int) < ((n * w.one : Nat) : Int) ↔ _
          omega

end Binary

end RegionSync
