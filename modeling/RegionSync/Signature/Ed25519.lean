import RegionSync.Signature.Curve
import RegionSync.Signature.Sha512

/-!
Ed25519 signatures. Signing is deterministic: the nonce is a hash of the secret and the message. A
signature is checked by computing its first half from the second, without a cofactor.
-/

namespace RegionSync.Ed25519

open Curve

/-- The scalar of a secret, and the bytes from which nonces are drawn. -/
def expand (secret : Bytes) : Nat × Bytes :=
  let h := Sha512.hash secret
  let n := LowFirst.number (h.take 32)
  (n % 2 ^ 254 / 8 * 8 + 2 ^ 254, h.drop 32)

/-- The public key of a secret of 32 bytes. -/
def publicKey (secret : Bytes) : Bytes :=
  (Point.timesBase (expand secret).1).encode

theorem length_publicKey (secret : Bytes) : (publicKey secret).length = 32 := by
  simp [publicKey]

def hashScalar (bytes : Bytes) : Nat :=
  LowFirst.number (Sha512.hash bytes) % order

/-- The signature of a message: an encoded point and a scalar. -/
def sign (secret message : Bytes) : Bytes :=
  let (a, seed) := expand secret
  let key := (Point.timesBase a).encode
  let r := hashScalar (seed ++ message)
  let point := (Point.timesBase r).encode
  let k := hashScalar (point ++ key ++ message)
  point ++ LowFirst.bytes 32 ((r + k * a) % order)

theorem length_sign (secret message : Bytes) : (sign secret message).length = 64 := by
  simp [sign]

/-- A signature of 64 bytes checked against the key's point: the scalar is reduced, and the point is
the one that the scalar, the key and the message give. -/
def check (key : Bytes) (keyPoint : Point) (signature message : Bytes) : Bool :=
  let point := signature.take 32
  let s := LowFirst.number (signature.drop 32)
  if s < order then
    let k := hashScalar (point ++ key ++ message)
    ((Point.timesBase s).add (Point.times k keyPoint.neg)).encode == point
  else false

end RegionSync.Ed25519
