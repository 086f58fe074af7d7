import RegionSync.Binary.Arithmetic

/-!
The natural logarithm and the exponential of a negative argument. Both sum a power series in fixed
point with far more places than the result keeps, and round once.
-/

namespace RegionSync.Binary

variable {w : Width}

/-- Binary places of the fixed-point sums. -/
def seriesPlaces (w : Width) : Nat := w.places + 64

/-- The sum of `term / (2 i + 1)` from `i` on, each term `square / 2 ^ p` times the one before. -/
def atanhSum (p square : Nat) : Nat → Nat → Nat → Nat
  | 0, _, _ => 0
  | fuel + 1, i, term =>
    if term = 0 then 0
    else term / (2 * i + 1) + atanhSum p square fuel (i + 1) (term * square / 2 ^ p)

/-- The logarithm of `(1 + z) / (1 - z)` in units of `2 ^ -p`, for `z` in such units. -/
def logRatio (p z : Nat) : Nat :=
  2 * atanhSum p (z * z / 2 ^ p) p 0 z

/-- The logarithm of `n / 2 ^ e` in units of `2 ^ -p`, for a positive `n`. -/
def logUnits (p n e : Nat) : Int :=
  let k := n.log2
  let z := (n - 2 ^ k) * 2 ^ p / (n + 2 ^ k)
  let log2 := logRatio p (2 ^ p / 3)
  (logRatio p z : Int) + ((k : Int) - e) * log2

def log : Binary w → Binary w
  | nan => nan
  | infinite s => if s then nan else infinite false
  | finite s n _ =>
    if n = 0 then infinite true
    else if s then nan
    else
      let p := seriesPlaces w
      let v := logUnits p n w.places
      ofRatio (v < 0) v.natAbs (2 ^ p)

/-- The sum of `term` and its successors in the series of `e ^ -y`, `y` in units of `2 ^ -p`. -/
def expSum (p y : Nat) : Nat → Nat → Int → Int
  | 0, _, _ => 0
  | fuel + 1, i, term =>
    if term = 0 then 0
    else term + expSum p y fuel (i + 1) (-(term * y / (2 ^ p * i : Nat)))

/-- `v` squared `k` times, in units of `2 ^ -p`. -/
def squareTimes (p : Nat) : Nat → Nat → Nat
  | 0, v => v
  | k + 1, v => squareTimes p k (v * v / 2 ^ p)

/-- `e ^ -x` for a number `x` that is not negative. -/
def expNeg : Binary w → Binary w
  | finite false n _ =>
    let p := seriesPlaces w
    let y := n * 2 ^ p / w.one
    let halvings := y.log2 + 1 - p
    let r := (expSum p (y / 2 ^ halvings) p 1 (2 ^ p : Nat)).toNat
    ofRatio false (squareTimes p halvings r) (2 ^ p)
  | infinite false => zero
  | _ => nan

end RegionSync.Binary
