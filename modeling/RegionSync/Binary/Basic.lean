import RegionSync.Power

/-!
Binary floating-point numbers of two widths, held exactly. A finite number is a sign and a whole
number of units, the unit being the least positive number of the width, so sums, products and
comparisons are arithmetic of natural numbers followed by one rounding to nearest, ties to even.
Main statement: rounding always lands on a number of the width.
-/

namespace RegionSync

/-- The widths in use: 32 bits for coordinates, 64 bits for seconds and chances. -/
inductive Width
  | single
  | double
  deriving DecidableEq, Repr

namespace Width

def precision : Width → Nat
  | single => 24
  | double => 53

/-- The unit is `2 ^ -places`. -/
def places : Width → Nat
  | single => 149
  | double => 1074

/-- Finite magnitudes are below `2 ^ span` units. -/
def span : Width → Nat
  | single => 277
  | double => 2098

def one (w : Width) : Nat := 2 ^ w.places

/-- The magnitude in units is a number of the width: in range, and with no more significant digits
than the width has. -/
def Fits (w : Width) (units : Nat) : Prop :=
  units < 2 ^ w.span ∧ 2 ^ (units.log2 + 1 - w.precision) ∣ units

instance (w : Width) (units : Nat) : Decidable (w.Fits units) :=
  inferInstanceAs (Decidable (_ ∧ _))

theorem fits_zero (w : Width) : w.Fits 0 :=
  ⟨Nat.pow_pos (by decide), Nat.dvd_zero _⟩

end Width

/-- The whole number nearest to `a / b`, the even one if two are equally near. -/
def nearestEven (a b : Nat) : Nat :=
  let q := a / b
  let r := a % b
  if 2 * r < b ∨ (2 * r = b ∧ q % 2 = 0) then q else q + 1

/-- A number with the width's significant digits that is nearest to `a / b` units, ties to even; the
result may be out of range. -/
def Width.round (w : Width) (a b : Nat) : Nat :=
  let excess := (a / b).log2 + 1 - w.precision
  nearestEven a (b * 2 ^ excess) * 2 ^ excess

/-- A floating-point number. There is one quiet value that is not a number, and zero has a sign. -/
inductive Binary (w : Width)
  | nan
  | infinite (negative : Bool)
  | finite (negative : Bool) (units : Nat) (fits : w.Fits units)
  deriving DecidableEq

/-- Coordinates and lengths. -/
abbrev Single := Binary .single

/-- Seconds and chances. -/
abbrev Double := Binary .double

theorem nearestEven_mul {a b : Nat} (h : 0 < b) : nearestEven (a * b) b = a := by
  simp [nearestEven, Nat.mul_div_cancel _ h, h]

theorem nearestEven_le {a b k : Nat} (h : a < k * b) : nearestEven a b ≤ k := by
  have hb : 0 < b := by
    rcases Nat.eq_zero_or_pos b with rfl | hb
    · simp at h
    · exact hb
  have : a / b < k := (Nat.div_lt_iff_lt_mul hb).2 h
  unfold nearestEven
  dsimp only
  split <;> omega

/-- A multiple of `2 ^ e` by at most `2 ^ p` has at most `p` significant digits. -/
theorem Width.dvd_of_le_pow {p e k : Nat} (hp : 0 < p) (hk : k ≤ 2 ^ p) :
    2 ^ ((k * 2 ^ e).log2 + 1 - p) ∣ k * 2 ^ e := by
  rcases Nat.eq_zero_or_pos k with rfl | hpos
  · simp
  have ne : k * 2 ^ e ≠ 0 := Nat.ne_of_gt (Nat.mul_pos hpos (Nat.pow_pos (by decide)))
  rcases Nat.lt_or_eq_of_le hk with hlt | rfl
  · have lt : k * 2 ^ e < 2 ^ (p + e) := by
      rw [Nat.pow_add]
      exact Nat.mul_lt_mul_of_pos_right hlt (Nat.pow_pos (by decide))
    have := (Nat.log2_lt ne).2 lt
    exact Nat.dvd_trans (Nat.pow_dvd_pow 2 (by omega)) (Nat.dvd_mul_left _ _)
  · rw [← Nat.pow_add, Nat.log2_two_pow]
    exact Nat.pow_dvd_pow 2 (by omega)

theorem Width.precision_pos (w : Width) : 0 < w.precision := by
  cases w <;> decide

/-- Rounding leaves no more significant digits than the width has. -/
theorem Width.dvd_round (w : Width) (a b : Nat) :
    2 ^ ((w.round a b).log2 + 1 - w.precision) ∣ w.round a b := by
  rcases Nat.eq_zero_or_pos b with rfl | hb
  · have : w.round a 0 = 0 ∨ w.round a 0 = 1 := by
      have h : (0 : Nat).log2 + 1 - w.precision = 0 := by cases w <;> decide
      simp only [Width.round, Nat.div_zero, h, nearestEven, Nat.zero_mul]
      split <;> simp
    rcases this with h | h <;> rw [h]
    · simp
    · cases w <;> decide
  · unfold Width.round
    apply dvd_of_le_pow w.precision_pos
    apply nearestEven_le
    have lt : a / b < 2 ^ ((a / b).log2 + 1) := Nat.lt_log2_self
    have : a < 2 ^ ((a / b).log2 + 1) * b := (Nat.div_lt_iff_lt_mul hb).1 lt
    refine Nat.lt_of_lt_of_le this ?_
    rw [Nat.mul_left_comm, ← Nat.pow_add, Nat.mul_comm]
    exact Nat.mul_le_mul_left b (Nat.pow_le_pow_right (by decide) (by omega))

/-- A magnitude of the width is its own rounding. -/
theorem Width.round_one {w : Width} {n : Nat} (h : w.Fits n) : w.round n 1 = n := by
  obtain ⟨k, hk⟩ := h.2
  unfold Width.round
  simp only [Nat.div_one, Nat.one_mul]
  rw [Nat.mul_comm] at hk
  generalize 2 ^ (n.log2 + 1 - w.precision) = g at hk ⊢
  subst hk
  rcases Nat.eq_zero_or_pos g with rfl | hg
  · simp
  · rw [nearestEven_mul hg]

end RegionSync
