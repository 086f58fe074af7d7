import RegionSync.Bytes

/-!
The twisted Edwards curve `-x² + y² = 1 + d x² y²` over the integers modulo `2 ^ 255 - 19`. Points
are held in extended coordinates, so that addition needs no inverse and has no exceptional case.
-/

namespace RegionSync.Curve

/-- The field has this many elements. -/
def prime : Nat := 2 ^ 255 - 19

/-- The base point generates a group of this many points. -/
def order : Nat := 2 ^ 252 + 27742317777372353535851937790883648493

/-- `a ^ e` times `acc` modulo the field's prime, one binary digit of `e` at a time. -/
def powAcc (acc a e : Nat) : Nat :=
  if h : e = 0 then acc
  else
    have : e / 2 < e := Nat.div_lt_self (Nat.pos_of_ne_zero h) (by decide)
    powAcc (if e % 2 = 1 then acc * a % prime else acc) (a * a % prime) (e / 2)

def pow (a e : Nat) : Nat :=
  powAcc 1 (a % prime) e

/-- The inverse of a field element; zero for zero. -/
def inverse (a : Nat) : Nat :=
  pow a (prime - 2)

def sub (a b : Nat) : Nat :=
  (a + (prime - b)) % prime

/-- The curve's constant, `-121665 / 121666`. -/
def d : Nat :=
  (prime - 121665) * inverse 121666 % prime

def rootOfMinusOne : Nat :=
  pow 2 ((prime - 1) / 4)

/-- A point `(x / z, y / z)` with `t = x y / z`; coordinates are below the prime. -/
structure Point where
  x : Nat
  y : Nat
  z : Nat
  t : Nat

namespace Point

def zero : Point := ⟨0, 1, 1, 0⟩

def twiceD : Nat := 2 * d % prime

def add (p q : Point) : Point :=
  let a := sub p.y p.x * sub q.y q.x % prime
  let b := (p.y + p.x) * (q.y + q.x) % prime
  let c := p.t * twiceD % prime * q.t % prime
  let z := 2 * p.z * q.z % prime
  let e := sub b a
  let f := sub z c
  let g := z + c
  let h := b + a
  ⟨e * f % prime, g * h % prime, f * g % prime, e * h % prime⟩

def double (p : Point) : Point :=
  let a := p.x * p.x % prime
  let b := p.y * p.y % prime
  let c := 2 * p.z * p.z % prime
  let h := (a + b) % prime
  let s := p.x + p.y
  let e := sub h (s * s % prime)
  let g := sub a b
  let f := (c + g) % prime
  ⟨e * f % prime, g * h % prime, f * g % prime, e * h % prime⟩

def neg (p : Point) : Point :=
  ⟨sub 0 p.x, p.y, p.z, sub 0 p.t⟩

/-- The first sixteen multiples of a point. -/
def multiples (p : Point) : Array Point :=
  (List.range 15).foldl (fun ps _ => ps.push ((ps.getD (ps.size - 1) zero).add p)) #[zero]

/-- The multiple by the number that `digits` write in base sixteen, the high digit first. -/
def timesDigits (table : Array Point) (digits : List Nat) : Point :=
  digits.foldl (fun p digit => p.double.double.double.double.add (table.getD digit zero)) zero

/-- The 64 digits of a number in base sixteen, the low digit first. -/
def digits (n : Nat) : List Nat :=
  (List.range 64).map fun i => n / 16 ^ i % 16

/-- `n` times the point, for `n` below `2 ^ 256`. -/
def times (n : Nat) (p : Point) : Point :=
  timesDigits p.multiples (digits n).reverse

/-- The point with this second coordinate whose first coordinate has this parity. -/
def ofY? (y : Nat) (odd : Bool) : Option Point :=
  let y := y % prime
  let square := y * y % prime
  let u := sub square 1
  let v := (d * square + 1) % prime
  let v3 := v * v % prime * v % prime
  let v7 := v3 * v3 % prime * v % prime
  let root := u * v3 % prime * pow (u * v7 % prime) ((prime - 5) / 8) % prime
  let check := v * root % prime * root % prime
  let root? :=
    if check = u then some root
    else if check = sub 0 u then some (root * rootOfMinusOne % prime)
    else none
  root?.map fun x =>
    let x := if (x % 2 = 1) = odd then x else sub 0 x
    ⟨x, y, 1, x * y % prime⟩

/-- The generator, with second coordinate `4 / 5`. -/
def base : Point :=
  (ofY? (4 * inverse 5 % prime) false).getD zero

/-- The first sixteen multiples of `16 ^ i` times the generator, for each of 64 places `i`. -/
def baseTable : Array (Array Point) :=
  ((List.range 64).foldl
    (fun (tables, p) _ => (tables.push (multiples p), p.double.double.double.double))
    (#[], base)).1

/-- `n` times the generator, for `n` below `2 ^ 256`. -/
def timesBase (n : Nat) : Point :=
  ((digits n).foldl
    (fun (p, i) digit => (p.add ((baseTable.getD i #[]).getD digit zero), i + 1)) (zero, 0)).1

/-- The 32 bytes of a point: its second coordinate, and the parity of the first in the top bit. -/
def encode (p : Point) : Bytes :=
  let i := inverse p.z
  let x := p.x * i % prime
  let y := p.y * i % prime
  LowFirst.bytes 32 (y + x % 2 * 2 ^ 255)

@[simp] theorem length_encode (p : Point) : p.encode.length = 32 := by
  simp [encode]

/-- The point of 32 bytes. The second coordinate may be written above the prime. -/
def decode? (bytes : Bytes) : Option Point :=
  let n := LowFirst.number bytes
  ofY? (n % 2 ^ 255) (n / 2 ^ 255 == 1)

end Point

end RegionSync.Curve
