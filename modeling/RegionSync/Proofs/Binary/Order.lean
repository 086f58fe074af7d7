import RegionSync.Proofs.Binary.Whole

/-!
Comparisons. What is not a number compares with nothing, so a bound holds of a result only if it is a
number: sums, products and clamps of numbers are, where infinities do not meet.
-/

namespace RegionSync.Binary

variable {w : Width} {x y z low high : Binary w}

/-! Results that are numbers. -/

theorem ne_nan_of_isFinite (h : x.isFinite = true) : x ≠ nan := by
  rintro rfl
  cases h

theorem ofUnits_ne_nan (negative : Bool) (a b : Nat) : (ofUnits negative a b : Binary w) ≠ nan := by
  unfold ofUnits
  dsimp only
  intro h
  split at h
  · cases h
  · cases h

theorem add_ne_nan (hx : x.isFinite = true) (hy : y ≠ nan) : x.add y ≠ nan := by
  cases x with
  | nan => cases hx
  | infinite negative => cases hx
  | finite negative n h =>
      cases y with
      | nan => exact absurd rfl hy
      | infinite negative' => exact nofun
      | finite negative' n' h' => exact ofUnits_ne_nan _ _ _

theorem mul_ne_nan (hx : x.isFinite = true) (hy : y.isFinite = true) : x.mul y ≠ nan := by
  cases x with
  | nan => cases hx
  | infinite negative => cases hx
  | finite negative n h =>
      cases y with
      | nan => cases hy
      | infinite negative' => cases hy
      | finite negative' n' h' => exact ofUnits_ne_nan _ _ _

/-! The order. -/

protected theorem lt_irrefl (x : Binary w) : ¬ x.lt x = true := by
  cases x <;> simp [lt]

theorem le_of_not_lt (hx : x ≠ nan) (hy : y ≠ nan) (h : ¬ x.lt y = true) : y.le x = true := by
  cases x with
  | nan => exact absurd rfl hx
  | infinite s => cases y <;> cases s <;> simp_all [le, lt, eq]
  | finite s m hm =>
      cases y with
      | nan => exact absurd rfl hy
      | infinite t => cases t <;> simp_all [le, lt]
      | finite t n hn =>
          rw [lt_finite_iff] at h
          rw [le_finite_iff]
          omega

protected theorem le_refl (hx : x ≠ nan) : x.le x = true :=
  le_of_not_lt hx hx (Binary.lt_irrefl x)

protected theorem lt_of_le_of_lt (hxy : x.le y = true) (hyz : y.lt z = true) : x.lt z = true := by
  cases x <;> cases y <;> cases z <;> simp_all [le, lt, eq]
  omega

theorem isFinite_of_between (hlow : low.isFinite = true) (hhigh : high.isFinite = true)
    (h : low.le x = true) (h' : x.le high = true) : x.isFinite = true := by
  cases low <;> cases high <;> cases x <;> simp_all [isFinite, le, lt, eq]

/-- Only the zeros are equal to another number. -/
theorem eq_finite_of_eq {n : Nat} {h : w.Fits n} (hpos : 0 < n) (heq : x.eq (finite false n h) = true) :
    x = finite false n h := by
  cases x with
  | nan => cases heq
  | infinite negative => cases heq
  | finite negative m hm =>
      have hunits : signed negative m = n := eq_of_beq heq
      cases negative with
      | false =>
          obtain rfl : m = n := Int.ofNat.inj hunits
          rfl
      | true =>
          simp only [signed, ↓reduceIte] at hunits
          omega

/-- A clamped number is between its bounds. -/
theorem clamp_between (hx : x ≠ nan) (hlow : low ≠ nan) (hhigh : high ≠ nan) (h : low.le high = true) :
    low.le (x.clamp low high) = true ∧ (x.clamp low high).le high = true := by
  have hnot : ¬ high.lt low = true := fun hlt => Binary.lt_irrefl low (Binary.lt_of_le_of_lt h hlt)
  unfold clamp
  dsimp only
  by_cases hbelow : x.lt low = true
  · rw [if_pos hbelow, if_neg hnot]
    exact ⟨Binary.le_refl hlow, h⟩
  · rw [if_neg hbelow]
    by_cases habove : high.lt x = true
    · rw [if_pos habove]
      exact ⟨h, Binary.le_refl hhigh⟩
    · rw [if_neg habove]
      exact ⟨le_of_not_lt hx hlow hbelow, le_of_not_lt hhigh hx habove⟩

end RegionSync.Binary
