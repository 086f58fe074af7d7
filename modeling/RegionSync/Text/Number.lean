import RegionSync.Power

/-!
Whole numbers in decimal. Writing uses the fewest digits; reading also takes a leading `+` and
leading zeros, and refuses a number that its bound does not admit.
-/

namespace RegionSync.Text

/-- The number in decimal, without leading zeros. -/
def decimal (n : Nat) : List Char :=
  Nat.toDigits 10 n

def withoutPlus : List Char → List Char
  | '+' :: rest => rest
  | cs => cs

/-- The number below `bound` that the text writes, if it writes one. -/
def readNat? (bound : Nat) (cs : List Char) : Option Nat :=
  let digits := withoutPlus cs
  if digits.isEmpty || !digits.all Char.isDigit then none
  else
    let n := Nat.ofDigitChars 10 digits 0
    if n < bound then some n else none

def readUInt8? (cs : List Char) : Option UInt8 :=
  (readNat? (2 ^ 8) cs).map UInt8.ofNat

def readUInt32? (cs : List Char) : Option UInt32 :=
  (readNat? (2 ^ 32) cs).map UInt32.ofNat

def readUInt64? (cs : List Char) : Option UInt64 :=
  (readNat? (2 ^ 64) cs).map UInt64.ofNat

theorem isDigit_of_mem_decimal {n : Nat} {c : Char} (h : c ∈ decimal n) : c.isDigit = true :=
  Nat.isDigit_of_mem_toDigits (by decide) (by decide) h

theorem decimal_ne_nil (n : Nat) : decimal n ≠ [] :=
  Nat.toDigits_ne_nil

theorem withoutPlus_decimal (n : Nat) : withoutPlus (decimal n) = decimal n := by
  unfold withoutPlus
  split
  · next rest h =>
    have : ('+' : Char).isDigit = true := isDigit_of_mem_decimal (n := n) (by simp [h])
    exact absurd this (by decide)
  · rfl

/-- A number below the bound reads back from its decimal form. -/
theorem readNat?_decimal {bound n : Nat} (h : n < bound) : readNat? bound (decimal n) = some n := by
  have all : (decimal n).all Char.isDigit = true :=
    List.all_eq_true.2 fun c hc => isDigit_of_mem_decimal hc
  have value : Nat.ofDigitChars 10 (decimal n) 0 = n := Nat.ofDigitChars_ten_toDigits
  simp [readNat?, withoutPlus_decimal, decimal_ne_nil, all, value, h]

theorem readUInt32?_decimal (n : UInt32) : readUInt32? (decimal n.toNat) = some n := by
  simp [readUInt32?, readNat?_decimal n.toNat_lt]

end RegionSync.Text
