import RegionSync.Text.Utf8

/-! Bytes in hexadecimal, two lower-case digits each; reading takes digits of either case. -/

namespace RegionSync.Text.Hex

def ofByte (b : UInt8) : List Char :=
  [Nat.digitChar (b.toNat / 16), Nat.digitChar (b.toNat % 16)]

def encode (bytes : Bytes) : String :=
  String.ofList (bytes.flatMap ofByte)

def digit? (c : Char) : Option Nat :=
  let v := c.toNat
  if 0x30 ≤ v ∧ v ≤ 0x39 then some (v - 0x30)
  else if 0x61 ≤ v ∧ v ≤ 0x66 then some (v - 0x61 + 10)
  else if 0x41 ≤ v ∧ v ≤ 0x46 then some (v - 0x41 + 10)
  else none

/-- The bytes that the digits write, two digits to a byte. -/
def decode? : List Char → Option Bytes
  | [] => some []
  | a :: b :: rest => do
    let a ← digit? a
    let b ← digit? b
    let bytes ← decode? rest
    return UInt8.ofNat (a * 16 + b) :: bytes
  | [_] => none

end RegionSync.Text.Hex
