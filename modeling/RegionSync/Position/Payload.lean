import RegionSync.Position.Point
import RegionSync.Wire

/-!
Bodies of position answers: three coordinates, or a reset that names the number to go on from.
-/

namespace RegionSync

inductive Payload
  /-- Written `x,y,z`. -/
  | position (p : Point)
  /-- Written `reset:sequence:reason`. -/
  | reset (sequence : UInt32) (reason : String)
  deriving DecidableEq

namespace Payload

/-- What a reset starts with. -/
def resetMark : List Char := "reset:".toList

def textChars : Payload → List Char
  | position p => List.intercalate [','] (p.coordinates.map (Binary.text .plain))
  | reset sequence reason =>
    resetMark ++ Text.decimal sequence.toNat ++ ':' :: reason.toList

def text (p : Payload) : String :=
  String.ofList p.textChars

def bytes (p : Payload) : Bytes :=
  Text.encode p.textChars

/-- The reset that the text after the mark writes; a reason may be missing. -/
def readReset? (cs : List Char) : Option Payload :=
  let (sequence, reason) := (Text.cutFirst? ':' cs).getD (cs, [])
  (Text.readUInt32? sequence).map (reset · (String.ofList reason))

/-- The position that the text writes; blanks around a coordinate do not count. -/
def readPosition? (cs : List Char) : Option Payload :=
  match (Text.split ',' cs).mapM (fun c => Binary.read? (Text.trim c)) with
  | some [x, y, z] => some (position ⟨x, y, z⟩)
  | _ => none

def ofText? (cs : List Char) : Option Payload :=
  match resetMark.isPrefixOf? cs with
  | some rest => readReset? rest
  | none => readPosition? cs

def ofBytes (content : Bytes) : Except WireError Payload :=
  match Text.decode? content with
  | none => .error .notUtf8
  | some cs =>
    match ofText? cs with
    | some p => .ok p
    | none => .error (.malformedPayload (String.ofList cs))

/-- Numeric equality; a coordinate that is not a number equals nothing. -/
def eq : Payload → Payload → Bool
  | position p, position q => p.eq q
  | reset s r, reset t q => s == t && r == q
  | _, _ => false

end Payload

end RegionSync
