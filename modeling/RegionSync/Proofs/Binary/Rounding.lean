import Mathlib.Tactic.Ring
import Mathlib.Tactic.Linarith
import RegionSync.Binary.Decimal

/-!
Which ratios round to a given magnitude. Those that do fill the interval between the midpoints next
to it, and the midpoints belong to it if the magnitude is an even multiple of its gap.
-/

namespace RegionSync

variable {w : Width} {u a b : Nat}

/-- A ratio at most half away from a whole number rounds to it, an even one if exactly half. -/
theorem nearestEven_eq {q : Nat} (hb : 0 < b) (hlow : 2 * (q * b) ≤ 2 * a + b)
    (hhigh : 2 * a ≤ 2 * (q * b) + b)
    (htie : q % 2 = 0 ∨ 2 * (q * b) < 2 * a + b ∧ 2 * a < 2 * (q * b) + b) :
    nearestEven a b = q := by
  unfold nearestEven
  dsimp only
  have hdiv := Nat.div_add_mod' a b
  have hmod := Nat.mod_lt a hb
  by_cases hle : q * b ≤ a
  · have hq : a / b = q := by
      refine Nat.div_eq_of_lt_le hle ?_
      rw [Nat.succ_mul]
      omega
    rw [hq] at hdiv ⊢
    rw [if_pos (by omega)]
  · obtain ⟨m, rfl⟩ : ∃ m, q = m + 1 := Nat.exists_eq_add_one.2 (by
      rcases Nat.eq_zero_or_pos q with rfl | hpos
      · simp at hle
      · exact hpos)
    have hsucc : (m + 1) * b = m * b + b := Nat.succ_mul m b
    have hm : a / b = m := Nat.div_eq_of_lt_le (by omega) (by omega)
    rw [hm] at hdiv ⊢
    rw [if_neg (by omega)]

namespace Width

/-- The distance from a magnitude to the next one. -/
def gap (w : Width) (u : Nat) : Nat :=
  2 ^ (u.log2 + 1 - w.precision)

/-- Twice the distance from a magnitude to the one before, which is half a gap below a power of
two. -/
def gapBelow (w : Width) (u : Nat) : Nat :=
  if 1 < w.gap u ∧ u = 2 ^ u.log2 then w.gap u else 2 * w.gap u

/-- The ratio `a / b` is between the midpoints next to `u`, or on one of them if `u` is even. -/
structure Hits (w : Width) (u a b : Nat) : Prop where
  low : (4 * u - w.gapBelow u) * b ≤ 4 * a
  high : 4 * a ≤ (4 * u + 2 * w.gap u) * b
  tie : u / w.gap u % 2 = 0 ∨
    (4 * u - w.gapBelow u) * b < 4 * a ∧ 4 * a < (4 * u + 2 * w.gap u) * b

theorem gap_pos (w : Width) (u : Nat) : 0 < w.gap u :=
  Nat.pow_pos (by decide)

theorem gap_le (hpos : 0 < u) (h : w.Fits u) : w.gap u ≤ u :=
  Nat.le_of_dvd hpos h.2

theorem div_gap_mul (h : w.Fits u) : u / w.gap u * w.gap u = u :=
  Nat.div_mul_cancel h.2

theorem precision_le_log2 (h : 1 < w.gap u) : w.precision ≤ u.log2 := by
  by_contra hlt
  rw [gap, show u.log2 + 1 - w.precision = 0 by omega, Nat.pow_zero] at h
  exact absurd h (Nat.lt_irrefl 1)

theorem add_le_of_dvd {g v : Nat} (hu : g ∣ u) (hv : g ∣ v) (h : u < v) : u + g ≤ v :=
  Nat.le_of_lt_add_of_dvd (Nat.add_lt_add_right h g) (Nat.dvd_add hu (Nat.dvd_refl g)) hv

theorem round_of_excess {q e : Nat} (hb : 0 < b) (he : (a / b).log2 + 1 - w.precision = e)
    (hu : q * 2 ^ e = u) (hlow : 2 * (u * b) ≤ 2 * a + 2 ^ e * b)
    (hhigh : 2 * a ≤ 2 * (u * b) + 2 ^ e * b)
    (htie : q % 2 = 0 ∨ 2 * (u * b) < 2 * a + 2 ^ e * b ∧ 2 * a < 2 * (u * b) + 2 ^ e * b) :
    w.round a b = u := by
  have hassoc : q * (b * 2 ^ e) = u * b := by
    rw [← hu]
    ring
  have hcomm : b * 2 ^ e = 2 ^ e * b := Nat.mul_comm _ _
  have hnear : nearestEven a (b * 2 ^ e) = q := by
    apply nearestEven_eq (Nat.mul_pos hb (Nat.pow_pos (by decide)))
    · rw [hassoc, hcomm]
      exact hlow
    · rw [hassoc, hcomm]
      exact hhigh
    · rw [hassoc, hcomm]
      exact htie
  unfold round
  dsimp only
  rw [he, hnear, hu]

/-- What is not below the magnitude drops as many digits as it. -/
theorem excess_of_le (hpos : 0 < u) (h : w.Fits u) (hb : 0 < b) (hlow : u * b ≤ a)
    (hhigh : 2 * a ≤ 2 * (u * b) + w.gap u * b) : (a / b).log2 = u.log2 := by
  have hv : u ≤ a / b := (Nat.le_div_iff_mul_le hb).2 hlow
  have hlt : a / b < u + w.gap u := by
    rw [Nat.div_lt_iff_lt_mul hb, Nat.add_mul]
    have := Nat.mul_pos (w.gap_pos u) hb
    omega
  have hnext : u + w.gap u ≤ 2 ^ (u.log2 + 1) :=
    add_le_of_dvd h.2 (Nat.pow_dvd_pow 2 (Nat.sub_le _ _)) Nat.lt_log2_self
  rw [Nat.log2_eq_iff (by omega)]
  exact ⟨(Nat.log2_self_le hpos.ne').trans hv, hlt.trans_le hnext⟩

/-- Neither does what is below it, except right below a power of two that drops digits. -/
theorem excess_of_lt (hpos : 0 < u) (h : w.Fits u) (hb : 0 < b) (hhigh : a < u * b)
    (hpower : ¬ (1 < w.gap u ∧ u = 2 ^ u.log2)) (hlow : 2 * (u * b) ≤ 2 * a + w.gap u * b) :
    (a / b).log2 + 1 - w.precision = u.log2 + 1 - w.precision := by
  have hlt : a / b < u := (Nat.div_lt_iff_lt_mul hb).2 hhigh
  by_cases hgap : 1 < w.gap u
  · have hne : u ≠ 2 ^ u.log2 := fun heq => hpower ⟨hgap, heq⟩
    have hge : u - w.gap u ≤ a / b := by
      rw [Nat.le_div_iff_mul_le hb, Nat.sub_mul]
      omega
    have hprev : 2 ^ u.log2 + w.gap u ≤ u := by
      have hprec := w.precision_pos
      have hlog := precision_le_log2 hgap
      apply add_le_of_dvd (Nat.pow_dvd_pow 2 (by omega)) h.2
      exact lt_of_le_of_ne (Nat.log2_self_le hpos.ne') hne.symm
    have hfloor : 2 ^ u.log2 ≤ a / b := by omega
    have hsame : (a / b).log2 = u.log2 := by
      rw [Nat.log2_eq_iff (by have := Nat.pow_pos (n := u.log2) (show 0 < 2 by decide); omega)]
      exact ⟨hfloor, hlt.trans Nat.lt_log2_self⟩
    rw [hsame]
  · have hzero : u.log2 + 1 - w.precision = 0 := by
      by_contra hmore
      exact hgap (Nat.one_lt_two_pow hmore)
    have hmono : (a / b).log2 ≤ u.log2 := by
      by_cases hq : a / b = 0
      · rw [hq]
        simp
      · rw [Nat.le_log2 hpos.ne']
        exact (Nat.log2_self_le hq).trans hlt.le
    omega

/-- Right below a power of two the gaps are half as large, so one digit less is dropped. -/
theorem excess_of_power (hpos : 0 < u) (hb : 0 < b) (hgap : 1 < w.gap u) (hpower : u = 2 ^ u.log2)
    (hhigh : a < u * b) (hlow : 4 * (u * b) ≤ 4 * a + w.gap u * b) :
    (a / b).log2 + 1 - w.precision + 1 = u.log2 + 1 - w.precision := by
  have hexcess := precision_le_log2 hgap
  have hprec := w.precision_pos
  obtain ⟨k, hk⟩ : ∃ k, u.log2 = k + 1 := Nat.exists_eq_add_one.2 (by omega)
  have hle : w.gap u ≤ 2 * 2 ^ k := by
    rw [gap, ← Nat.pow_succ']
    exact Nat.pow_le_pow_right (by decide) (by omega)
  have htwo : u = 2 * 2 ^ k := by rw [hpower, hk, Nat.pow_succ']
  have hge : 2 ^ k ≤ a / b := by
    have hscaled : w.gap u * b ≤ 2 * (2 ^ k * b) := by
      rw [← Nat.mul_assoc]
      exact Nat.mul_le_mul_right b hle
    have hub : u * b = 2 * (2 ^ k * b) := by rw [← Nat.mul_assoc, ← htwo]
    rw [Nat.le_div_iff_mul_le hb]
    omega
  have hlog : (a / b).log2 = k := by
    rw [Nat.log2_eq_iff (by have := Nat.pow_pos (n := k) (show 0 < 2 by decide); omega)]
    refine ⟨hge, ?_⟩
    rw [Nat.div_lt_iff_lt_mul hb, Nat.pow_succ', ← htwo]
    exact hhigh
  omega

/-- What drops as many digits as the magnitude rounds to it. -/
theorem round_of_gap (h : w.Fits u) (hb : 0 < b)
    (he : (a / b).log2 + 1 - w.precision = u.log2 + 1 - w.precision)
    (hlow : 2 * (u * b) ≤ 2 * a + w.gap u * b) (hhigh : 2 * a ≤ 2 * (u * b) + w.gap u * b)
    (htie : u / w.gap u % 2 = 0 ∨
      2 * (u * b) < 2 * a + w.gap u * b ∧ 2 * a < 2 * (u * b) + w.gap u * b) :
    w.round a b = u :=
  round_of_excess hb he (div_gap_mul h) hlow hhigh htie

/-- So does what is right below it where it is a power of two. -/
theorem round_of_power (hpos : 0 < u) (h : w.Fits u) (hb : 0 < b) (hgap : 1 < w.gap u)
    (hpower : u = 2 ^ u.log2) (hhigh : a < u * b) (hlow : 4 * (u * b) ≤ 4 * a + w.gap u * b) :
    w.round a b = u := by
  have he := excess_of_power hpos hb hgap hpower hhigh hlow
  generalize hdrop : (a / b).log2 + 1 - w.precision = e at he
  have hhalf : w.gap u = 2 * 2 ^ e := by rw [gap, ← he, Nat.pow_succ']
  have hwhole : 2 * (u / w.gap u) * 2 ^ e = u := by
    calc 2 * (u / w.gap u) * 2 ^ e = u / w.gap u * (2 * 2 ^ e) := by ring
      _ = u := by rw [← hhalf, div_gap_mul h]
  have hscaled : w.gap u * b = 2 * (2 ^ e * b) := by rw [hhalf, Nat.mul_assoc]
  -- the half gap leaves an even quotient, so the midpoint below is included
  exact round_of_excess hb hdrop hwhole (by omega) (by omega) (Or.inl (Nat.mul_mod_right 2 _))

/-- A ratio between the midpoints next to a magnitude rounds to it. -/
theorem round_eq (hpos : 0 < u) (h : w.Fits u) (hb : 0 < b) (hits : w.Hits u a b) :
    w.round a b = u := by
  obtain ⟨hlow, hhigh, htie⟩ := hits
  have hgap := gap_le hpos h
  have hscaled : w.gapBelow u * b ≤ 4 * (u * b) := by
    rw [← Nat.mul_assoc]
    refine Nat.mul_le_mul_right b ?_
    unfold gapBelow
    split <;> omega
  rw [Nat.sub_mul, Nat.mul_assoc 4] at hlow htie
  rw [Nat.add_mul, Nat.mul_assoc 4, Nat.mul_assoc 2] at hhigh htie
  by_cases hle : u * b ≤ a
  · have hlog := excess_of_le hpos h hb hle (by omega)
    apply round_of_gap h hb (congrArg (· + 1 - w.precision) hlog)
    · exact (Nat.mul_le_mul_left 2 hle).trans (Nat.le_add_right _ _)
    · omega
    · have := Nat.mul_pos (w.gap_pos u) hb
      omega
  · have hlt : a < u * b := Nat.lt_of_not_le hle
    by_cases hpower : 1 < w.gap u ∧ u = 2 ^ u.log2
    · rw [gapBelow, if_pos hpower] at hlow hscaled
      exact round_of_power hpos h hb hpower.1 hpower.2 hlt (by omega)
    · rw [gapBelow, if_neg hpower, Nat.mul_assoc] at hlow hscaled htie
      have he := excess_of_lt hpos h hb hlt hpower (by omega)
      apply round_of_gap h hb he <;> omega

end Width

end RegionSync
