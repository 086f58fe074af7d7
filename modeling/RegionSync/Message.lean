import RegionSync.Name
import RegionSync.Node

/-!
Requests and signed answers, as the transport carries them, and the bytes that a signature covers.
-/

namespace RegionSync

/-- A request for data under a name, valid for `lifetime` milliseconds. Requests ask for a fresh
answer, never a cached one. -/
structure Request where
  name : Name
  lifetime : Nat
  fresh : Bool := true
  deriving DecidableEq, Repr

structure Response where
  name : Name
  content : Bytes
  /-- How long the answer may be served again, in milliseconds. -/
  freshness : UInt64
  /-- The signer's wall clock, in milliseconds. -/
  timestamp : UInt64
  signature : Bytes
  key : Bytes
  deriving DecidableEq, Repr

namespace Response

/-- The bytes that a signature covers: the name's text, a zero byte, the content, and the two times,
low byte first. -/
def signable (name : Name) (content : Bytes) (freshness timestamp : UInt64) : Bytes :=
  Text.bytesOf name.text ++ 0 :: content ++ LowFirst.bytes 8 freshness.toNat ++
    LowFirst.bytes 8 timestamp.toNat

def signed (r : Response) : Bytes :=
  signable r.name r.content r.freshness r.timestamp

end Response

structure RegistrationId where
  number : UInt64
  deriving DecidableEq, Repr

def RegistrationId.text (id : RegistrationId) : String :=
  s!"reg#{id.number}"

/-- What can go wrong between a peer and its transport. -/
inductive TransportError
  | network (text : String)
  | refused (name reason : String)
  | unknownRegistration (id : UInt64)
  | invalidName (text : String)
  deriving DecidableEq, Repr

def TransportError.message : TransportError → String
  | network text => s!"Network error: {text}"
  | refused name reason => s!"Registration failed for {name}: {reason}"
  | unknownRegistration id => s!"Unknown registration: {id}"
  | invalidName text => s!"Invalid name: {text}"

/-- The name that the text writes, or the text as an error. -/
def Name.parse (text : String) : Except TransportError Name :=
  match ofText? text with
  | some n => .ok n
  | none => .error (.invalidName text)

end RegionSync
