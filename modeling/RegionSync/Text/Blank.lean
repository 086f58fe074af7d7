/-!
Blank characters: the White_Space property of Unicode, and trimming by it. Names and payloads are
told apart from their surroundings by this class, so it is fixed here and used everywhere.
-/

namespace RegionSync.Text

/-- A character with the Unicode property White_Space. -/
def isBlank (c : Char) : Bool :=
  let v := c.toNat
  decide (9 ≤ v ∧ v ≤ 13) || v == 0x20 || v == 0x85 || v == 0xA0 || v == 0x1680 ||
    decide (0x2000 ≤ v ∧ v ≤ 0x200A) || v == 0x2028 || v == 0x2029 || v == 0x202F ||
    v == 0x205F || v == 0x3000

/-- The text without the blanks at its two ends. -/
def trim (cs : List Char) : List Char :=
  ((cs.dropWhile isBlank).reverse.dropWhile isBlank).reverse

theorem isBlank_of_isWhitespace {c : Char} (h : c.isWhitespace = true) : isBlank c = true := by
  simp only [Char.isWhitespace, Bool.or_eq_true, decide_eq_true_eq] at h
  rcases h with ((h | h) | h) | h <;> subst h <;> decide

end RegionSync.Text
