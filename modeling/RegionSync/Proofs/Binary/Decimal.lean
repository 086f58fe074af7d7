import Mathlib.Data.List.TakeWhile
import RegionSync.Proofs.Binary.Rounding

/-!
A number that is written in decimal is read back. The digits that are written stand for a value
between the midpoints next to the number, so rounding this value gives the number again.
-/

namespace RegionSync.Binary

variable {w : Width} {u n low high d c : Nat} {j : Int} {closed : Bool}

/-! Candidates on a decimal grid. -/

/-- `c * 10 ^ j` lies between two bounds, which are multiples of `1 / d`, or on one of them. -/
def Between (closed : Bool) (low high d c : Nat) (j : Int) : Prop :=
  if closed then low * 10 ^ (-j).toNat ≤ c * (d * 10 ^ j.toNat) ∧
    c * (d * 10 ^ j.toNat) ≤ high * 10 ^ (-j).toNat
  else low * 10 ^ (-j).toNat < c * (d * 10 ^ j.toNat) ∧
    c * (d * 10 ^ j.toNat) < high * 10 ^ (-j).toNat

theorem scale_eq (j : Int) : (if j < 0 then 10 ^ j.natAbs else 1) = 10 ^ (-j).toNat := by
  by_cases h : j < 0
  · rw [if_pos h, show j.natAbs = (-j).toNat by omega]
  · rw [if_neg h, show (-j).toNat = 0 by omega, Nat.pow_zero]

theorem grid_eq (d : Nat) (j : Int) :
    (if j < 0 then d else d * 10 ^ j.natAbs) = d * 10 ^ j.toNat := by
  by_cases h : j < 0
  · rw [if_pos h, show j.toNat = 0 by omega, Nat.pow_zero, Nat.mul_one]
  · rw [if_neg h, show j.natAbs = j.toNat by omega]

theorem between_iff {c : Nat} : (if closed then decide (low * 10 ^ (-j).toNat ≤
    c * (d * 10 ^ j.toNat) ∧ c * (d * 10 ^ j.toNat) ≤ high * 10 ^ (-j).toNat)
    else decide (low * 10 ^ (-j).toNat < c * (d * 10 ^ j.toNat) ∧
      c * (d * 10 ^ j.toNat) < high * 10 ^ (-j).toNat)) = true ↔ Between closed low high d c j := by
  unfold Between
  cases closed <;> simp

theorem between_of_nearestOnGrid? (h : nearestOnGrid? closed n low high d j = some c) :
    Between closed low high d c j := by
  unfold nearestOnGrid? at h
  simp only [scale_eq, grid_eq] at h
  split at h
  · next hq hnext =>
      split at h
      · cases h
        exact between_iff.1 hq
      · cases h
        exact between_iff.1 hnext
  · next hq _ =>
      cases h
      exact between_iff.1 hq
  · next _ hnext =>
      cases h
      exact between_iff.1 hnext
  · cases h

/-- On a grid finer than the upper half of the interval there is a candidate. -/
theorem isSome_nearestOnGrid? (hn : low ≤ n) (hd : 0 < d)
    (hfine : n * 10 ^ (-j).toNat + d * 10 ^ j.toNat < high * 10 ^ (-j).toNat) :
    (nearestOnGrid? closed n low high d j).isSome = true := by
  have hgrid : 0 < d * 10 ^ j.toNat := Nat.mul_pos hd (Nat.pow_pos (by decide))
  have hnext : Between closed low high d (n * 10 ^ (-j).toNat / (d * 10 ^ j.toNat) + 1) j := by
    have hlow := Nat.mul_le_mul_right (10 ^ (-j).toNat) hn
    have habove := Nat.lt_div_mul_add (a := n * 10 ^ (-j).toNat) hgrid
    have hbelow := Nat.div_mul_le_self (n * 10 ^ (-j).toNat) (d * 10 ^ j.toNat)
    rw [Between, Nat.add_one_mul]
    split <;> omega
  unfold nearestOnGrid?
  simp only [scale_eq, grid_eq]
  split
  · split <;> rfl
  · rfl
  · rfl
  · next hnone =>
      rw [between_iff.2 hnext] at hnone
      cases hnone

/-! The digits that are written. -/

theorem pow_length_decimal_le (hn : 0 < n) : 10 ^ ((Text.decimal n).length - 1) ≤ n := by
  by_contra hlt
  have hlen := Nat.length_toDigits_pos (b := 10) (n := n)
  by_cases hone : (Nat.toDigits 10 n).length = 1
  · rw [Text.decimal, hone] at hlt
    omega
  · have hle : (Nat.toDigits 10 n).length ≤ (Nat.toDigits 10 n).length - 1 :=
      (Nat.length_toDigits_le_iff (by decide) (by omega)).2 (Nat.lt_of_not_le hlt)
    omega

theorem lt_pow_length_decimal (n : Nat) : n < 10 ^ (Text.decimal n).length :=
  (Nat.length_toDigits_le_iff (by decide) Nat.length_toDigits_pos).1 (Nat.le_refl _)

/-- The power of ten of the leading digit is at most the ratio. -/
theorem pow_magnitude_le (hd : 0 < d) (hrange : d ≤ n * 10 ^ 399) :
    d * 10 ^ (magnitude n d - 1).toNat ≤ n * 10 ^ (1 - magnitude n d).toNat := by
  unfold magnitude
  by_cases hle : d ≤ n
  · rw [if_pos hle]
    have hlen := Nat.length_toDigits_pos (b := 10) (n := n / d)
    have hpow := pow_length_decimal_le (Nat.div_pos hle hd)
    rw [show (((Text.decimal (n / d)).length : Int) - 1).toNat = (Text.decimal (n / d)).length - 1 by
        omega,
      show (1 - ((Text.decimal (n / d)).length : Int)).toNat = 0 by rw [Text.decimal]; omega,
      Nat.pow_zero, Nat.mul_one]
    exact (Nat.mul_le_mul_left d hpow).trans (Nat.mul_div_le n d)
  · rw [if_neg hle]
    cases hplaces : (List.range 400).find? fun s => decide (d ≤ n * 10 ^ s) with
    | none =>
        have := List.find?_eq_none.1 hplaces 399 (List.mem_range.2 (by decide))
        exact absurd (decide_eq_true hrange) this
    | some s =>
        have hs : d ≤ n * 10 ^ s := by simpa using List.find?_some hplaces
        dsimp only [Option.getD_some]
        rw [show ((1 : Int) - s - 1).toNat = 0 by omega, show (1 - (1 - (s : Int))).toNat = s by omega,
          Nat.pow_zero, Nat.mul_one]
        exact hs

/-- The bounds and the grids that the digits of a magnitude are chosen from. -/
def candidate? (w : Width) (u : Nat) (j : Int) : Option Nat :=
  nearestOnGrid? (u / w.gap u % 2 == 0) (4 * u) (4 * u - w.gapBelow u) (4 * u + 2 * w.gap u)
    (4 * w.one) j

theorem shortest_eq (w : Width) (u : Nat) : shortest w u =
    ((List.range 20).findSome? fun (k : Nat) =>
      (candidate? w u (magnitude (4 * u) (4 * w.one) - k)).map fun c =>
        (c, magnitude (4 * u) (4 * w.one) - (k : Int))).getD (0, 0) := rfl

theorem two_pow_le_ten_pow {m k : Nat} (h : m ≤ 3 * k) : 2 ^ m ≤ 10 ^ k := by
  calc 2 ^ m ≤ 2 ^ (3 * k) := Nat.pow_le_pow_right (by decide) h
    _ = (2 ^ 3) ^ k := Nat.pow_mul 2 3 k
    _ ≤ 10 ^ k := Nat.pow_le_pow_left (by decide) k

theorem one_le_pow (w : Width) : w.one ≤ 10 ^ 399 := by
  apply two_pow_le_ten_pow
  cases w <;> decide

/-- A magnitude has no more digits than the width, counted from its gap. -/
theorem lt_pow_mul_gap (w : Width) (u : Nat) : u < 2 ^ w.precision * w.gap u := by
  rw [Width.gap, ← Nat.pow_add]
  exact Nat.lt_log2_self.trans_le (Nat.pow_le_pow_right (by decide) (by omega))

/-- Twenty digits are always enough. -/
theorem isSome_candidate? (hpos : 0 < u) :
    (candidate? w u (magnitude (4 * u) (4 * w.one) - 19)).isSome = true := by
  have hone : 0 < w.one := Nat.pow_pos (by decide)
  have hrange : 4 * w.one ≤ 4 * u * 10 ^ 399 :=
    (Nat.mul_le_mul_left 4 (one_le_pow w)).trans (Nat.mul_le_mul_right _ (by omega))
  have hlead := pow_magnitude_le (by omega) hrange
  generalize magnitude (4 * u) (4 * w.one) = t at hlead ⊢
  have hlead : w.one * 10 ^ (t - 1).toNat ≤ u * 10 ^ (1 - t).toNat := by
    rw [Nat.mul_assoc, Nat.mul_assoc] at hlead
    omega
  have hshift : 10 ^ (t - 1).toNat * 10 ^ (-(t - 19)).toNat =
      10 ^ 18 * 10 ^ (1 - t).toNat * 10 ^ (t - 19).toNat := by
    rw [← Nat.pow_add, ← Nat.pow_add, ← Nat.pow_add]
    congr 1
    omega
  have hsmall : 2 * 2 ^ w.precision ≤ 10 ^ 18 := by cases w <;> decide
  have hdigits := lt_pow_mul_gap w u
  generalize ha : 10 ^ (t - 1).toNat = a at *
  generalize hb : 10 ^ (1 - t).toNat = b at *
  generalize hc : 10 ^ (-(t - 19)).toNat = x at *
  generalize hd : 10 ^ (t - 19).toNat = y at *
  have hxpos : 0 < x := hc ▸ Nat.pow_pos (by decide)
  have hbpos : 0 < b := hb ▸ Nat.pow_pos (by decide)
  have hfine : 2 * w.one * y < w.gap u * x := by
    refine Nat.lt_of_mul_lt_mul_left (a := 10 ^ 18 * b) ?_
    calc 10 ^ 18 * b * (2 * w.one * y) = 2 * (w.one * (10 ^ 18 * b * y)) := by ring
      _ = 2 * (w.one * a * x) := by rw [← hshift, Nat.mul_assoc w.one]
      _ ≤ 2 * (u * b * x) := Nat.mul_le_mul_left 2 (Nat.mul_le_mul_right x hlead)
      _ < 2 * (2 ^ w.precision * w.gap u * b * x) := by gcongr
      _ = 2 * 2 ^ w.precision * (w.gap u * b * x) := by ring
      _ ≤ 10 ^ 18 * (w.gap u * b * x) := Nat.mul_le_mul_right _ hsmall
      _ = 10 ^ 18 * b * (w.gap u * x) := by ring
  refine isSome_nearestOnGrid? (Nat.sub_le _ _) (by omega) ?_
  rw [hc, hd]
  linarith

theorem hits_of_between (h : Between (u / w.gap u % 2 == 0) (4 * u - w.gapBelow u)
    (4 * u + 2 * w.gap u) (4 * w.one) c j) :
    w.Hits u (c * 10 ^ j.toNat * w.one) (10 ^ (-j).toNat) := by
  have hvalue : c * (4 * w.one * 10 ^ j.toNat) = 4 * (c * 10 ^ j.toNat * w.one) := by ring
  rw [Between, hvalue] at h
  split at h
  · next heven =>
      exact ⟨h.1, h.2, Or.inl (by simpa using heven)⟩
  · exact ⟨h.1.le, h.2.le, Or.inr h⟩

/-- The digits of a magnitude stand for a value that rounds to it. -/
theorem hits_shortest (hpos : 0 < u) :
    w.Hits u ((shortest w u).1 * 10 ^ (shortest w u).2.toNat * w.one)
      (10 ^ (-(shortest w u).2).toNat) := by
  have hfound := isSome_candidate? (w := w) hpos
  rw [shortest_eq]
  generalize magnitude (4 * u) (4 * w.one) = t at hfound ⊢
  cases hdigits : (List.range 20).findSome? fun (k : Nat) =>
      (candidate? w u (t - k)).map fun c => (c, t - (k : Int)) with
  | none =>
      have hlast : candidate? w u (t - 19) = none := Option.map_eq_none_iff.1
        (List.findSome?_eq_none_iff.1 hdigits 19 (List.mem_range.2 (by decide)))
      rw [hlast] at hfound
      cases hfound
  | some found =>
      obtain ⟨k, -, hk⟩ := List.exists_of_findSome?_eq_some hdigits
      obtain ⟨c, hc, rfl⟩ := Option.map_eq_some_iff.1 hk
      exact hits_of_between (between_of_nearestOnGrid? hc)

/-! Reading digits. -/

variable {s : Bool} {whole fraction cs : List Char}

theorem isDigit_of_mem_zeros {k : Nat} {d : Char} (h : d ∈ List.replicate k '0') :
    d.isDigit = true := by
  rw [List.eq_of_mem_replicate h]
  rfl

theorem takeWhile_digits (h : ∀ c ∈ whole, c.isDigit = true) (cs : List Char) :
    (whole ++ '.' :: cs).takeWhile Char.isDigit = whole ∧
      (whole ++ '.' :: cs).dropWhile Char.isDigit = '.' :: cs := by
  rw [List.takeWhile_append_of_pos h, List.dropWhile_append_of_pos h]
  simp

theorem readDigits?_whole (h : ∀ c ∈ whole, c.isDigit = true) (hne : whole ≠ []) :
    readDigits? s whole = some (ofDecimal s (Nat.ofDigitChars 10 whole 0) 0 : Binary w) := by
  have htake := List.takeWhile_eq_self_iff.2 h
  have hdrop := List.dropWhile_eq_nil_iff.2 h
  simp [readDigits?, htake, hdrop, hne, readExponent?]

theorem readDigits?_fraction (h : ∀ c ∈ whole, c.isDigit = true) (hne : whole ≠ [])
    (h' : ∀ c ∈ fraction, c.isDigit = true) : readDigits? s (whole ++ '.' :: fraction) =
      some (ofDecimal s (Nat.ofDigitChars 10 (whole ++ fraction) 0) (-fraction.length) :
        Binary w) := by
  obtain ⟨htake, hdrop⟩ := takeWhile_digits h fraction
  have htake' := List.takeWhile_eq_self_iff.2 h'
  have hdrop' := List.dropWhile_eq_nil_iff.2 h'
  simp [readDigits?, htake, hdrop, htake', hdrop', hne, readExponent?]

/-- Digits with a point are read as the whole number that they write, times a power of ten. -/
theorem readDigits?_positionalText (s : Bool) (c : Nat) (j : Int) :
    readDigits? s (positionalText false c j) =
      some (ofDecimal s (c * 10 ^ j.toNat) (-((-j).toNat : Int)) : Binary w) := by
  have hdigits : ∀ d ∈ Text.decimal c, d.isDigit = true := fun d => Text.isDigit_of_mem_decimal
  have hvalue : Nat.ofDigitChars 10 (Text.decimal c) 0 = c := Nat.ofDigitChars_ten_toDigits
  unfold positionalText
  dsimp only
  by_cases hj : 0 ≤ j
  · rw [if_pos hj, if_neg (by decide), List.append_nil, readDigits?_whole]
    · rw [Nat.ofDigitChars_append, hvalue, Nat.ofDigitChars_replicate_zero,
        show j.natAbs = j.toNat by omega, show (-j).toNat = 0 by omega, Nat.mul_comm]
      rfl
    · exact List.forall_mem_append.2 ⟨hdigits, fun d => isDigit_of_mem_zeros⟩
    · simp [Text.decimal_ne_nil]
  · rw [if_neg hj]
    have hwhole : c * 10 ^ j.toNat = c := by rw [show j.toNat = 0 by omega, Nat.pow_zero, Nat.mul_one]
    rw [hwhole]
    by_cases hlen : j.natAbs < (Text.decimal c).length
    · rw [if_pos hlen, readDigits?_fraction, List.take_append_drop, hvalue, List.length_drop]
      · congr 2
        omega
      · exact fun d hd => hdigits d (List.mem_of_mem_take hd)
      · simp only [ne_eq, List.take_eq_nil_iff, Text.decimal_ne_nil, or_false]
        omega
      · exact fun d hd => hdigits d (List.mem_of_mem_drop hd)
    · rw [if_neg hlen, show ['0', '.'] ++ List.replicate (j.natAbs - (Text.decimal c).length) '0' ++
        Text.decimal c = ['0'] ++ '.' :: (List.replicate (j.natAbs - (Text.decimal c).length) '0' ++
        Text.decimal c) from rfl, readDigits?_fraction]
      · have hzero : Nat.ofDigitChars 10 ['0'] 0 = 0 := rfl
        rw [Nat.ofDigitChars_append, Nat.ofDigitChars_append, Nat.ofDigitChars_replicate_zero, hzero,
          Nat.mul_zero, hvalue, List.length_append, List.length_replicate]
        congr 2
        omega
      · exact List.forall_mem_singleton.2 rfl
      · exact List.cons_ne_nil _ _
      · exact List.forall_mem_append.2 ⟨fun d => isDigit_of_mem_zeros, hdigits⟩

theorem toLower_of_isDigit {d : Char} (hd : d.isDigit = true) : d.toLower = d := by
  rw [Char.isDigit_iff_toNat] at hd
  refine dif_neg ?_
  rintro ⟨hlow, -⟩
  have hlow' : 'A'.toNat ≤ d.toNat := UInt32.le_iff_toNat_le.1 hlow
  exact absurd (hlow'.trans hd.2) (by decide)

theorem cutSign_digits {d : Char} (hd : d.isDigit = true) :
    cutSign ((if s then ['-'] else []) ++ d :: cs) = (s, d :: cs) := by
  cases s with
  | true => rfl
  | false =>
      rw [if_neg (by decide), List.nil_append, cutSign]
      · rintro rest heq
        cases heq
        exact absurd hd (by decide)
      · rintro rest heq
        cases heq
        exact absurd hd (by decide)

theorem read?_digits {d : Char} (hd : d.isDigit = true) :
    read? ((if s then ['-'] else []) ++ d :: cs) = (readDigits? s (d :: cs) : Option (Binary w)) := by
  have hname : ∀ e rest, e.isDigit = false → (d :: cs).map Char.toLower ≠ e :: rest := by
    intro e rest he heq
    rw [List.map_cons, toLower_of_isDigit hd, List.cons.injEq] at heq
    rw [heq.1, he] at hd
    cases hd
  unfold read?
  rw [cutSign_digits hd]
  dsimp only
  rw [if_neg (hname 'n' _ rfl), if_neg]
  exact not_or.2 ⟨hname 'i' _ rfl, hname 'i' _ rfl⟩

theorem positionalText_eq_cons (c : Nat) (j : Int) :
    ∃ d rest, positionalText false c j = d :: rest ∧ d.isDigit = true := by
  obtain ⟨d, rest, hdecimal⟩ := List.exists_cons_of_ne_nil (Text.decimal_ne_nil c)
  have hd : d.isDigit = true := Text.isDigit_of_mem_decimal (n := c) (by simp [hdecimal])
  unfold positionalText
  dsimp only
  by_cases hj : 0 ≤ j
  · rw [if_pos hj, hdecimal]
    exact ⟨d, _, rfl, hd⟩
  · rw [if_neg hj]
    split
    · next hlen =>
        obtain ⟨m, hm⟩ : ∃ m, (Text.decimal c).length - j.natAbs = m + 1 :=
          Nat.exists_eq_add_one.2 (by omega)
        rw [hm, hdecimal]
        exact ⟨d, _, rfl, hd⟩
    · exact ⟨'0', _, rfl, rfl⟩

theorem gapBelow_le (hpos : 0 < u) (h : w.Fits u) : w.gapBelow u ≤ 2 * u := by
  have hgap := Width.gap_le hpos h
  unfold Width.gapBelow
  split <;> omega

theorem lt_length_decimal {b k m : Nat} (h : 10 ^ b ≤ c * m) (hm : m ≤ 10 ^ k) :
    b < (Text.decimal c).length + k := by
  refine (Nat.pow_lt_pow_iff_right (show 1 < 10 by decide)).1 ?_
  calc 10 ^ b ≤ c * m := h
    _ ≤ c * 10 ^ k := Nat.mul_le_mul_left c hm
    _ < 10 ^ (Text.decimal c).length * 10 ^ k :=
        Nat.mul_lt_mul_of_pos_right (lt_pow_length_decimal c) (Nat.pow_pos (by decide))
    _ = 10 ^ ((Text.decimal c).length + k) := (Nat.pow_add ..).symm

/-- What rounds to a magnitude of the width is far from the sizes that reading does not look at. -/
theorem size_of_hits {b : Nat} (hpos : 0 < u) (h : w.Fits u)
    (hits : w.Hits u (c * w.one) (10 ^ b)) :
    0 < c ∧ b < (Text.decimal c).length + 359 ∧ (Text.decimal c).length ≤ 342 + b := by
  obtain ⟨hlow, hhigh, -⟩ := hits
  have hbelow := gapBelow_le hpos h
  have hgap := Width.gap_le hpos h
  have hsmall : 10 ^ b ≤ c * (2 * w.one) := by
    have hle : 2 * 10 ^ b ≤ (4 * u - w.gapBelow u) * 10 ^ b := Nat.mul_le_mul_right _ (by omega)
    have hcomm : c * (2 * w.one) = 2 * (c * w.one) := by ring
    omega
  have hc : 0 < c := by
    by_contra hzero
    rw [Nat.eq_zero_of_not_pos hzero, Nat.zero_mul] at hsmall
    exact absurd hsmall (Nat.not_le_of_lt (Nat.pow_pos (by decide)))
  have hlarge : c * w.one < 10 ^ (342 + b) * w.one := by
    have hle : (4 * u + 2 * w.gap u) * 10 ^ b ≤ 4 * (2 * u) * 10 ^ b :=
      Nat.mul_le_mul_right _ (by omega)
    have hspan : 2 * 2 ^ w.span ≤ 10 ^ 342 * w.one := by
      have hplaces : w.places ≤ w.span + 1 := by cases w <;> decide
      calc 2 * 2 ^ w.span = 2 ^ (w.span + 1 - w.places) * w.one := by
            rw [Width.one, ← Nat.pow_add, ← Nat.pow_succ', Nat.sub_add_cancel hplaces]
        _ ≤ 10 ^ 342 * w.one :=
            Nat.mul_le_mul_right _ (two_pow_le_ten_pow (by cases w <;> decide))
    calc c * w.one ≤ 2 * u * 10 ^ b := by rw [Nat.mul_assoc 4] at hle; omega
      _ < 2 * 2 ^ w.span * 10 ^ b := by
          have := h.1
          have := Nat.pow_pos (n := b) (show 0 < 10 by decide)
          gcongr
      _ ≤ 10 ^ 342 * w.one * 10 ^ b := Nat.mul_le_mul_right _ hspan
      _ = 10 ^ (342 + b) * w.one := by rw [Nat.pow_add, Nat.mul_right_comm]
  refine ⟨hc, ?_, ?_⟩
  · refine lt_length_decimal hsmall ?_
    rw [Width.one, ← Nat.pow_succ']
    exact two_pow_le_ten_pow (by cases w <;> decide)
  · have hlt : 10 ^ ((Text.decimal c).length - 1) < 10 ^ (342 + b) :=
      (pow_length_decimal_le hc).trans_lt (Nat.lt_of_mul_lt_mul_right hlarge)
    have := (Nat.pow_lt_pow_iff_right (show 1 < 10 by decide)).1 hlt
    omega

/-- Reading digits that stand for a value next to a magnitude gives the magnitude. -/
theorem ofDecimal_of_hits {b : Nat} (hpos : 0 < u) (h : w.Fits u)
    (hits : w.Hits u (c * w.one) (10 ^ b)) :
    ofDecimal s c (-(b : Int)) = (.finite s u h : Binary w) := by
  obtain ⟨hc, hsmall, hlarge⟩ := size_of_hits hpos h hits
  have hround := Width.round_eq hpos h (Nat.pow_pos (by decide)) hits
  have hunits : ofUnits s (c * w.one) (10 ^ b) = (.finite s u h : Binary w) := by
    unfold ofUnits
    simp only [hround, h.1, ↓reduceDIte]
  unfold ofDecimal
  dsimp only
  rw [if_neg (by omega), if_neg (by omega)]
  by_cases hb : b = 0
  · subst hb
    rw [if_neg (by decide)]
    simpa [ofRatio] using hunits
  · rw [if_pos (by omega), ofRatio, Int.natAbs_neg, Int.natAbs_natCast]
    exact hunits

/-- A number that is written with digits and a point is read back. -/
theorem read?_text (x : Binary w) : read? (text .plain x) = some x := by
  cases x with
  | nan => rfl
  | infinite s => cases s <;> rfl
  | finite s n h =>
      have hread : ∀ c j, read? ((if s then ['-'] else []) ++ positionalText false c j) =
          some (ofDecimal s (c * 10 ^ j.toNat) (-((-j).toNat : Int)) : Binary w) := by
        intro c j
        rw [← readDigits?_positionalText]
        obtain ⟨d, rest, htext, hd⟩ := positionalText_eq_cons c j
        rw [htext]
        exact read?_digits hd
      unfold text
      dsimp only
      by_cases hn : n = 0
      · subst hn
        rw [if_pos rfl]
        exact hread 0 0
      · rw [if_neg hn]
        dsimp only [Style.plain]
        rw [hread]
        exact congrArg some (ofDecimal_of_hits (by omega) h (hits_shortest (by omega)))

end RegionSync.Binary
