import RegionSync.Message
import RegionSync.Signature.Ed25519

/-!
Provenance of answers. Every answer is signed over its name, content and times, and carries the key
to check it with. Which signatures are used is a parameter; Ed25519 is the one in use.
-/

namespace RegionSync

/-- Why an answer is not trusted, or not signed. -/
inductive TrustError
  | invalidSignature
  | malformedKey
  | malformedSignature
  | signingFailed (reason : String)
  deriving DecidableEq, Repr

def TrustError.message : TrustError → String
  | invalidSignature => "Invalid signature"
  | malformedKey => "Malformed public key"
  | malformedSignature => "Malformed signature bytes"
  | signingFailed reason => s!"Signing failed: {reason}"

/-- A signature scheme. Secrets, keys and signatures are byte strings. -/
structure Scheme where
  key : (secret : Bytes) → Bytes
  sign : (secret message : Bytes) → Bytes
  verify : (key signature message : Bytes) → Except TrustError Unit

namespace Scheme

/-- Ed25519, with keys of 32 bytes and signatures of 64. -/
def ed25519 : Scheme where
  key := Ed25519.publicKey
  sign := Ed25519.sign
  verify key signature message :=
    if key.length ≠ 32 then .error .malformedKey
    else
      match Curve.Point.decode? key with
      | none => .error .malformedKey
      | some point =>
        if signature.length ≠ 64 then .error .malformedSignature
        else if Ed25519.check key point signature message then .ok ()
        else .error .invalidSignature

/-- What is signed verifies under the signer's key. -/
def Sound (σ : Scheme) : Prop :=
  ∀ secret message, σ.verify (σ.key secret) (σ.sign secret message) message = .ok ()

/-- Seals for a world in which nobody forges: a seal is the secret and the message themselves. -/
def sealing : Scheme where
  key secret := secret
  sign secret message := secret ++ message
  verify key signature message :=
    if signature = key ++ message then .ok () else .error .invalidSignature

theorem sound_sealing : sealing.Sound := by
  intro secret message
  simp [sealing]

/-- The signed answer; its freshness, in milliseconds, has to be a 64-bit word. -/
def respond (σ : Scheme) (secret : Bytes) (name : Name) (content : Bytes) (freshness : Nat)
    (timestamp : UInt64) : Except TrustError Response :=
  if freshness < 2 ^ 64 then
    let fresh := UInt64.ofNat freshness
    .ok {
      name, content, timestamp
      freshness := fresh
      signature := σ.sign secret (Response.signable name content fresh timestamp)
      key := σ.key secret }
  else .error (.signingFailed "freshness out of range")

/-- Checks an answer against the key that it carries. -/
def check (σ : Scheme) (r : Response) : Except TrustError Unit :=
  σ.verify r.key r.signature r.signed

/-- An answer signed by a sound scheme passes its check. -/
theorem check_respond {σ : Scheme} (h : σ.Sound) {secret : Bytes} {name : Name} {content : Bytes}
    {freshness : Nat} {timestamp : UInt64} {r : Response}
    (hr : σ.respond secret name content freshness timestamp = .ok r) : σ.check r = .ok () := by
  unfold respond at hr
  split at hr
  · cases hr
    exact h ..
  · cases hr

theorem content_of_respond {σ : Scheme} {secret : Bytes} {name : Name} {content : Bytes}
    {freshness : Nat} {timestamp : UInt64} {r : Response}
    (hr : σ.respond secret name content freshness timestamp = .ok r) : r.content = content := by
  unfold respond at hr
  split at hr
  · cases hr
    rfl
  · cases hr

end Scheme

end RegionSync
