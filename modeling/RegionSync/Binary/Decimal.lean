import RegionSync.Binary.Arithmetic
import RegionSync.Text.Number

/-!
Decimal text of floating-point numbers. Writing chooses the fewest digits that read back to the same
number and, of those, the nearest; reading rounds the exact decimal value once. How the digits are
laid out is a `Style`.
-/

namespace RegionSync.Binary

variable {w : Width}

/-- How digits are laid out. -/
structure Style where
  /-- A whole number ends in `.0`. -/
  point : Bool
  /-- Decimal exponents from the first up to but not including the second are written positionally;
  `none` writes all so. -/
  positional : Option (Int × Int)

/-- Digits and point only. -/
def Style.plain : Style := ⟨false, none⟩

/-- The form in messages about positions. -/
def Style.message : Style := ⟨true, some (-4, 16)⟩

/-- The form in reports. -/
def Style.report : Style := ⟨true, some (-5, 16)⟩

/-- The decimal exponent one above that of the leading digit of `n / d`. -/
def magnitude (n d : Nat) : Int :=
  if d ≤ n then (Text.decimal (n / d)).length
  else
    let places := (List.range 400).find? fun s => d ≤ n * 10 ^ s
    1 - (places.getD 400 : Nat)

/-- The multiple of `10 ^ j` nearest to `n / d` among those strictly between `low / d` and
`high / d`, or on a bound if `closed`. A tie goes up. -/
def nearestOnGrid? (closed : Bool) (n low high d : Nat) (j : Int) : Option Nat :=
  let scale := if j < 0 then 10 ^ j.natAbs else 1
  let grid := if j < 0 then d else d * 10 ^ j.natAbs
  let inside (c : Nat) : Bool :=
    let v := c * grid
    if closed then decide (low * scale ≤ v ∧ v ≤ high * scale)
    else decide (low * scale < v ∧ v < high * scale)
  let q := n * scale / grid
  match inside q, inside (q + 1) with
  | true, true => if 2 * (n * scale - q * grid) < grid then some q else some (q + 1)
  | true, false => some q
  | false, true => some (q + 1)
  | false, false => none

/-- The shortest digits `c` and exponent `j` such that `c * 10 ^ j` rounds to `units` units. The
numbers that round so reach half way to the neighbours, which below a power of two is nearer. -/
def shortest (w : Width) (units : Nat) : Nat × Int :=
  let gap := 2 ^ (units.log2 + 1 - w.precision)
  let even := units / gap % 2 == 0
  let belowGap := if 1 < gap ∧ units = 2 ^ units.log2 then gap else 2 * gap
  let n := 4 * units
  let d := 4 * w.one
  let top := magnitude n d
  let found := (List.range 20).findSome? fun (k : Nat) =>
    let j := top - (k : Int)
    (nearestOnGrid? even n (n - belowGap) (n + 2 * gap) d j).map fun c => (c, j)
  found.getD (0, 0)

/-- The digits `c` times `10 ^ j` with a point where it belongs. -/
def positionalText (point : Bool) (c : Nat) (j : Int) : List Char :=
  let digits := Text.decimal c
  if 0 ≤ j then digits ++ List.replicate j.natAbs '0' ++ (if point then ['.', '0'] else [])
  else
    let places := j.natAbs
    if places < digits.length then
      let whole := digits.length - places
      digits.take whole ++ '.' :: digits.drop whole
    else ['0', '.'] ++ List.replicate (places - digits.length) '0' ++ digits

/-- The digits `c` times `10 ^ j` with one digit before the point and an exponent. -/
def exponentText (c : Nat) (j : Int) : List Char :=
  let digits := Text.decimal c
  let exponent := j + (digits.length - 1 : Nat)
  let mantissa := match digits with
    | [] => []
    | [d] => [d]
    | d :: rest => d :: '.' :: rest
  mantissa ++ 'e' :: (if exponent < 0 then ['-'] else []) ++ Text.decimal exponent.natAbs

def text (style : Style) : Binary w → List Char
  | nan => ['N', 'a', 'N']
  | infinite s => (if s then ['-'] else []) ++ ['i', 'n', 'f']
  | finite s n _ =>
    let sign := if s then ['-'] else []
    if n = 0 then sign ++ positionalText style.point 0 0
    else
      let (c, j) := shortest w n
      let exponent := j + ((Text.decimal c).length - 1 : Nat)
      let body := match style.positional with
        | some (low, high) =>
          if low ≤ exponent ∧ exponent < high then positionalText style.point c j
          else exponentText c j
        | none => positionalText style.point c j
      sign ++ body

/-- The text of a number with digits and point only. -/
def plain (x : Binary w) : String :=
  String.ofList (text .plain x)

/-- The sign, and what follows it. -/
def cutSign : List Char → Bool × List Char
  | '-' :: rest => (true, rest)
  | '+' :: rest => (false, rest)
  | cs => (false, cs)

/-- The exponent that the text after the digits gives: none at all, or `e` and an integer. -/
def readExponent? : List Char → Option Int
  | [] => some 0
  | e :: rest =>
    if e == 'e' || e == 'E' then
      let (negative, digits) := cutSign rest
      if digits.isEmpty || !digits.all Char.isDigit then none
      else
        let n := Nat.ofDigitChars 10 digits 0
        some (if negative then -(n : Int) else n)
    else none

/-- The number nearest to `c * 10 ^ j`. Values far out of range are decided by their size alone. -/
def ofDecimal (negative : Bool) (c : Nat) (j : Int) : Binary w :=
  let size := j + (Text.decimal c).length
  if c = 0 ∨ size < -400 then .finite negative 0 w.fits_zero
  else if 400 < size then .infinite negative
  else if j < 0 then ofRatio negative c (10 ^ j.natAbs)
  else ofRatio negative (c * 10 ^ j.natAbs) 1

/-- The unsigned number that digits, a point and an exponent write. -/
def readDigits? (negative : Bool) (cs : List Char) : Option (Binary w) := do
  let whole := cs.takeWhile Char.isDigit
  let rest := cs.dropWhile Char.isDigit
  let (fraction, rest) := match rest with
    | '.' :: rest => (rest.takeWhile Char.isDigit, rest.dropWhile Char.isDigit)
    | _ => ([], rest)
  if whole.isEmpty && fraction.isEmpty then none
  else
    let exponent ← readExponent? rest
    return ofDecimal negative (Nat.ofDigitChars 10 (whole ++ fraction) 0)
      (exponent - fraction.length)

/-- The number that the text writes: a sign, then digits or the name of a value in any case. -/
def read? (cs : List Char) : Option (Binary w) :=
  let (negative, body) := cutSign cs
  let name := body.map Char.toLower
  if name = ['n', 'a', 'n'] then some .nan
  else if name = ['i', 'n', 'f'] ∨ name = ['i', 'n', 'f', 'i', 'n', 'i', 't', 'y'] then
    some (.infinite negative)
  else readDigits? negative body

end RegionSync.Binary
