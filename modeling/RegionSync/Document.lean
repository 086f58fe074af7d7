import RegionSync.Entity.Name
import RegionSync.Json.Reader
import RegionSync.Json.Record
import RegionSync.Message
import RegionSync.Position.Window
import RegionSync.Region.Geometry

/-!
JSON documents of the values that peers exchange and store. A document is checked for its form
alone: an entity name may be one that no player can have, and a path may hold numbers that are no
octants.
-/

namespace RegionSync

namespace Json

/-- A list of bytes, each as a number. -/
def ofBytes (bytes : Bytes) : Json :=
  .array (bytes.map fun b => .ofNat b.toNat)

def bytes? (j : Json) : Option Bytes :=
  list? uint8? j

end Json

namespace Name

def toJson (n : Name) : Json :=
  .ofFields [("components", .array (n.components.map .ofString))]

def ofJson? (j : Json) : Option Name := do
  let [components] ← Json.record? ["components"] j | none
  return ⟨← Json.required (Json.list? Json.string?) components⟩

end Name

namespace NodeId

def toJson (n : NodeId) : Json :=
  .ofString n.text

def ofJson? (j : Json) : Option NodeId := do
  ofText? (← Json.string? j)

end NodeId

namespace RegistrationId

def toJson (id : RegistrationId) : Json :=
  .ofNat id.number.toNat

def ofJson? (j : Json) : Option RegistrationId :=
  (Json.uint64? j).map RegistrationId.mk

end RegistrationId

/-- A span of time: whole seconds, and less than a second in nanoseconds. -/
structure Span where
  seconds : UInt64
  nanoseconds : Nat
  deriving DecidableEq, Repr

namespace Span

def toJson (s : Span) : Json :=
  .ofFields [("secs", .ofNat s.seconds.toNat), ("nanos", .ofNat s.nanoseconds)]

/-- Nanoseconds that make up seconds are added to them; the seconds have to stay a word. -/
def ofJson? (j : Json) : Option Span := do
  let [secs, nanos] ← Json.closedRecord? ["secs", "nanos"] j | none
  let secs ← Json.required Json.uint64? secs
  let nanos ← Json.required Json.uint32? nanos
  let total := secs.toNat + nanos.toNat / 10 ^ 9
  if total < 2 ^ 64 then some ⟨.ofNat total, nanos.toNat % 10 ^ 9⟩ else none

end Span

/-- A request as it is stored: with a number that tells it from others of the same name. -/
structure StoredRequest where
  name : Name
  lifetime : Span
  fresh : Bool
  nonce : NodeId
  deriving DecidableEq, Repr

namespace StoredRequest

def fieldNames : List String := ["name", "lifetime", "must_be_fresh", "nonce"]

def toJson (r : StoredRequest) : Json :=
  .ofFields (fieldNames.zip [r.name.toJson, r.lifetime.toJson, .bool r.fresh, r.nonce.toJson])

def ofJson? (j : Json) : Option StoredRequest := do
  let [name, lifetime, fresh, nonce] ← Json.record? fieldNames j | none
  return {
    name := ← Json.required Name.ofJson? name
    lifetime := ← Json.required Span.ofJson? lifetime
    fresh := ← Json.required Json.bool? fresh
    nonce := ← Json.required NodeId.ofJson? nonce }

end StoredRequest

namespace Response

def fieldNames : List String :=
  ["name", "content", "freshness_ms", "timestamp_ms", "signature", "public_key"]

def toJson (r : Response) : Json :=
  .ofFields (fieldNames.zip [r.name.toJson, .ofBytes r.content, .ofNat r.freshness.toNat,
    .ofNat r.timestamp.toNat, .ofBytes r.signature, .ofBytes r.key])

def ofJson? (j : Json) : Option Response := do
  let [name, content, freshness, timestamp, signature, key] ← Json.record? fieldNames j | none
  return {
    name := ← Json.required Name.ofJson? name
    content := ← Json.required Json.bytes? content
    freshness := ← Json.required Json.uint64? freshness
    timestamp := ← Json.required Json.uint64? timestamp
    signature := ← Json.required Json.bytes? signature
    key := ← Json.required Json.bytes? key }

end Response

namespace EntityName

def toJson (e : EntityName) : Json :=
  .ofFields [("owner", .ofString e.owner), ("id", .ofString e.id)]

def ofJson? (j : Json) : Option EntityName := do
  let [owner, id] ← Json.record? ["owner", "id"] j | none
  return ⟨← Json.required Json.string? owner, ← Json.required Json.string? id⟩

end EntityName

namespace Geometry

def toJson (g : Geometry) : Json :=
  .ofFields [("depth", .ofNat g.depth), ("world_bits", .ofNat g.worldBits.toNat)]

def ofJson? (j : Json) : Option Geometry := do
  let [depth, bits] ← Json.record? ["depth", "world_bits"] j | none
  return ⟨← Json.required (Json.nat? (2 ^ 64)) depth, ← Json.required Json.uint32? bits⟩

end Geometry

namespace Window

def fieldNames : List String := ["size", "ahead", "behind"]

def toJson (w : Window) : Json :=
  .ofFields (fieldNames.zip [.ofNat w.size.toNat, .ofNat w.ahead.toNat, .ofNat w.behind.toNat])

def ofJson? (j : Json) : Option Window := do
  let [size, ahead, behind] ← Json.record? fieldNames j | none
  return {
    size := ← Json.required Json.uint32? size
    ahead := ← Json.required Json.uint32? ahead
    behind := ← Json.required Json.uint32? behind }

end Window

inductive DocumentKind
  | name
  | node
  | registration
  | request
  | response
  | entity
  | path
  | geometry
  | window
  deriving DecidableEq, Repr

/-- The document read as a value of its kind and written again. -/
def DocumentKind.normalize? : DocumentKind → Json → Option Json
  | name, j => (Name.ofJson? j).map Name.toJson
  | node, j => (NodeId.ofJson? j).map NodeId.toJson
  | registration, j => (RegistrationId.ofJson? j).map RegistrationId.toJson
  | request, j => (StoredRequest.ofJson? j).map StoredRequest.toJson
  | response, j => (Response.ofJson? j).map Response.toJson
  | entity, j => (EntityName.ofJson? j).map EntityName.toJson
  | path, j => (Json.bytes? j).map Json.ofBytes
  | geometry, j => (Geometry.ofJson? j).map Geometry.toJson
  | window, j => (Window.ofJson? j).map Window.toJson

end RegionSync
