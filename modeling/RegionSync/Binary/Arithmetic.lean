import RegionSync.Binary.Basic

/-!
Arithmetic, comparison and conversion of floating-point numbers. Every operation is exact on the
unit counts and rounds once; infinities and the value that is not a number follow the usual rules.
-/

namespace RegionSync.Binary

variable {w : Width}

/-- The number of the width nearest to `a / b` units, infinite if out of range. -/
def ofUnits (negative : Bool) (a b : Nat) : Binary w :=
  let units := w.round a b
  if h : units < 2 ^ w.span then .finite negative units ⟨h, w.dvd_round a b⟩ else .infinite negative

/-- The number nearest to `a / b`. -/
def ofRatio (negative : Bool) (a b : Nat) : Binary w :=
  ofUnits negative (a * w.one) b

/-- The number nearest to a whole number. -/
def ofNat (n : Nat) : Binary w :=
  ofRatio false n 1

def zero : Binary w :=
  .finite false 0 w.fits_zero

def half : Binary w :=
  ofRatio false 1 2

def isNaN : Binary w → Bool
  | nan => true
  | _ => false

def isFinite : Binary w → Bool
  | finite .. => true
  | _ => false

/-- The value in units, if finite. -/
def units? : Binary w → Option Int
  | finite negative n _ => some (if negative then -(n : Int) else n)
  | _ => none

/-- The number of an integer count of units. The sign of a zero is `negativeZero`. -/
def ofInt (negativeZero : Bool) (v : Int) : Binary w :=
  ofUnits (if v = 0 then negativeZero else v < 0) v.natAbs 1

def neg : Binary w → Binary w
  | nan => nan
  | infinite s => infinite !s
  | finite s n h => finite (!s) n h

def abs : Binary w → Binary w
  | nan => nan
  | infinite _ => infinite false
  | finite _ n h => finite false n h

/-- The signed unit count of a finite number. -/
def signed (negative : Bool) (n : Nat) : Int :=
  if negative then -(n : Int) else n

/-- An exact zero sum is positive unless both terms are negative zeros. -/
def add : Binary w → Binary w → Binary w
  | nan, _ => nan
  | _, nan => nan
  | infinite s, infinite t => if s = t then infinite s else nan
  | infinite s, finite .. => infinite s
  | finite .., infinite t => infinite t
  | finite s m _, finite t n _ => ofInt (s && t) (signed s m + signed t n)

def sub (a b : Binary w) : Binary w :=
  add a (neg b)

def mul : Binary w → Binary w → Binary w
  | nan, _ => nan
  | _, nan => nan
  | infinite s, infinite t => infinite (s != t)
  | infinite s, finite t n _ => if n = 0 then nan else infinite (s != t)
  | finite s m _, infinite t => if m = 0 then nan else infinite (s != t)
  | finite s m _, finite t n _ => ofUnits (s != t) (m * n) w.one

def div : Binary w → Binary w → Binary w
  | nan, _ => nan
  | _, nan => nan
  | infinite _, infinite _ => nan
  | infinite s, finite t _ _ => infinite (s != t)
  | finite s _ _, infinite t => finite (s != t) 0 w.fits_zero
  | finite s m _, finite t n _ =>
    if n = 0 then if m = 0 then nan else infinite (s != t)
    else ofUnits (s != t) (m * w.one) n

/-- The whole square root, from the square root of a quarter. -/
def wholeRoot (n : Nat) : Nat :=
  if h : n = 0 then 0
  else
    have : n / 4 < n := Nat.div_lt_self (Nat.pos_of_ne_zero h) (by decide)
    let r := 2 * wholeRoot (n / 4)
    if (r + 1) * (r + 1) ≤ n then r + 1 else r

/-- The square root. Where the whole root is not exact, a half above it stands for the true root: it
has far more digits than the width, so both round alike. -/
def sqrt : Binary w → Binary w
  | nan => nan
  | infinite s => if s then nan else infinite false
  | finite s n h =>
    if n = 0 then finite s n h
    else if s then nan
    else
      let square := n * w.one
      let root := wholeRoot square
      if root * root = square then ofUnits false root 1 else ofUnits false (2 * root + 1) 2

/-- Numeric equality: the zeros are equal, and what is not a number equals nothing. -/
def eq : Binary w → Binary w → Bool
  | infinite s, infinite t => s == t
  | finite s m _, finite t n _ => signed s m == signed t n
  | _, _ => false

def lt : Binary w → Binary w → Bool
  | nan, _ => false
  | _, nan => false
  | infinite s, infinite t => s && !t
  | infinite s, finite .. => s
  | finite .., infinite t => !t
  | finite s m _, finite t n _ => decide (signed s m < signed t n)

def le (a b : Binary w) : Bool :=
  lt a b || eq a b

/-- The number moved into `[low, high]`; what is not a number stays. -/
def clamp (x low high : Binary w) : Binary w :=
  let x := if lt x low then low else x
  if lt high x then high else x

/-- The larger of the two; a number wins over what is not one. -/
def max (a b : Binary w) : Binary w :=
  if a.isNaN then b
  else if b.isNaN then a
  else if lt a b then b
  else a

/-- The whole part of a number that is not negative. -/
def floor : Binary w → Nat
  | finite false n _ => n / w.one
  | _ => 0

/-- The nearest number of another width. -/
def convert (v : Width) : Binary w → Binary v
  | nan => nan
  | infinite s => infinite s
  | finite s n _ => ofUnits s (n * v.one) w.one

/-- The whole number nearest to `scale` times a number that is not negative, ties to even. -/
def scaledNat (scale : Nat) : Binary w → Nat
  | finite false n _ => nearestEven (n * scale) w.one
  | _ => 0

/-- The whole part of `scale` times a number that is not negative. -/
def scaledFloor (scale : Nat) : Binary w → Nat
  | finite false n _ => n * scale / w.one
  | _ => 0

/-- A sum, difference or product that fits needs no rounding. -/
theorem ofUnits_one {negative : Bool} {n : Nat} (h : w.Fits n) :
    ofUnits negative n 1 = finite negative n h := by
  have hr := w.round_one h
  unfold ofUnits
  simp only [hr, h.1, ↓reduceDIte]

end RegionSync.Binary
