import RegionSync.Text.Utf8

/-!
Base64 with the standard alphabet. Three bytes are four symbols; a last group of one or two bytes is
padded with `=`. Decoding accepts only what encoding writes, and names the first fault it meets.
-/

namespace RegionSync.Text.Base64

def symbol (v : Nat) : Char :=
  if v < 26 then Char.ofNat (0x41 + v)
  else if v < 52 then Char.ofNat (0x61 + (v - 26))
  else if v < 62 then Char.ofNat (0x30 + (v - 52))
  else if v = 62 then '+'
  else '/'

def value? (b : UInt8) : Option Nat :=
  let v := b.toNat
  if 0x41 ≤ v ∧ v ≤ 0x5A then some (v - 0x41)
  else if 0x61 ≤ v ∧ v ≤ 0x7A then some (v - 0x61 + 26)
  else if 0x30 ≤ v ∧ v ≤ 0x39 then some (v - 0x30 + 52)
  else if v = 0x2B then some 62
  else if v = 0x2F then some 63
  else none

/-- The byte that pads the last group. -/
def pad : UInt8 := 0x3D

def encode : Bytes → List Char
  | a :: b :: c :: rest =>
    let n := (a.toNat * 256 + b.toNat) * 256 + c.toNat
    symbol (n / 262144) :: symbol (n / 4096 % 64) :: symbol (n / 64 % 64) :: symbol (n % 64) ::
      encode rest
  | [a, b] =>
    let n := (a.toNat * 256 + b.toNat) * 4
    [symbol (n / 4096), symbol (n / 64 % 64), symbol (n % 64), '=']
  | [a] =>
    let n := a.toNat * 16
    [symbol (n / 64), symbol (n % 64), '=', '=']
  | [] => []

/-- Why bytes are not the Base64 form of anything. -/
inductive Fault
  /-- A byte that may not stand at this offset. -/
  | symbol (byte : UInt8) (offset : Nat)
  /-- Too few symbols in the last group; `length` counts the bytes up to there. -/
  | length (length : Nat)
  /-- The last symbol carries bits that belong to no byte. -/
  | lastSymbol (byte : UInt8) (offset : Nat)
  /-- Padding that does not fill the last group. -/
  | padding
  deriving DecidableEq, Repr

def Fault.message : Fault → String
  | symbol byte offset => s!"Invalid symbol {byte.toNat}, offset {offset}."
  | length n => s!"Invalid input length: {n}"
  | lastSymbol byte offset => s!"Invalid last symbol {byte.toNat}, offset {offset}."
  | padding => "Invalid padding"

/-- The value of the symbol at `offset`. -/
def valueAt (offset : Nat) (b : UInt8) : Except Fault Nat :=
  match value? b with
  | some v => .ok v
  | none => .error (.symbol b offset)

/-- The symbols of the last group, with their values, and the number of paddings after them. -/
def readGroup (start : Nat) :
    Nat → List (UInt8 × Nat) → Nat → Bytes → Except Fault (List (UInt8 × Nat) × Nat)
  | _, symbols, pads, [] => .ok (symbols.reverse, pads)
  | i, symbols, pads, b :: rest =>
    if b = pad then
      if i < 2 then .error (.symbol b (start + i))
      else readGroup start (i + 1) symbols (pads + 1) rest
    else if 0 < pads then .error (.symbol pad (start + (i - pads)))
    else do
      let v ← valueAt (start + i) b
      readGroup start (i + 1) ((b, v) :: symbols) pads rest

/-- The bytes of the last group, which starts at `start`. -/
def decodeGroup (start : Nat) (group : Bytes) : Except Fault Bytes := do
  if group.isEmpty then return []
  let (symbols, pads) ← readGroup start 0 [] 0 group
  let count := symbols.length
  if count < 2 then throw (.length (start + count))
  if (count + pads) % 4 ≠ 0 then throw .padding
  let n := symbols.foldl (fun n s => n * 64 + s.2) 0
  let (bytes, left) := match count with
    | 2 => ([n / 16], n % 16)
    | 3 => ([n / 1024, n / 4 % 256], n % 4)
    | _ => ([n / 65536, n / 256 % 256, n % 256], 0)
  if left ≠ 0 then
    throw (.lastSymbol ((symbols.getLast?.map (·.1)).getD 0) (start + count - 1))
  return bytes.map UInt8.ofNat

/-- The bytes of the groups from `start` on. -/
def decodeFrom (start : Nat) : Bytes → Except Fault Bytes
  | a :: b :: c :: d :: e :: rest => do
    let a ← valueAt start a
    let b ← valueAt (start + 1) b
    let c ← valueAt (start + 2) c
    let d ← valueAt (start + 3) d
    let n := ((a * 64 + b) * 64 + c) * 64 + d
    let bytes ← decodeFrom (start + 4) (e :: rest)
    return UInt8.ofNat (n / 65536) :: UInt8.ofNat (n / 256 % 256) :: UInt8.ofNat (n % 256) :: bytes
  | group => decodeGroup start group

/-- The bytes whose Base64 form is the input. A stray byte that begins a new group at the very end
is reported before anything else. -/
def decode (input : Bytes) : Except Fault Bytes :=
  match input.getLast? with
  | none => .ok []
  | some last =>
    if input.length % 4 = 1 ∧ last ≠ pad ∧ value? last = none then
      .error (.symbol last (input.length - 1))
    else decodeFrom 0 input

end RegionSync.Text.Base64
