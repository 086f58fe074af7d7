import RegionSync.Entity.NameSet
import RegionSync.Wire

/-!
Discovery answers. A listing is a region and its members; the body of an answer has a line for each,
the names first and the path last, with a blank after every name.
-/

namespace RegionSync

/-- The name that the text writes, or the text as an error. -/
def EntityName.parse (s : String) : Except WireError EntityName :=
  match EntityName.ofText? s.toList with
  | some e => .ok e
  | none => .error (.invalidEntityName s)

/-- The name of these parts, or their text as an error. -/
def EntityName.make (owner id : String) : Except WireError EntityName :=
  match EntityName.make? owner id with
  | some e => .ok e
  | none => .error (.invalidEntityName (owner ++ ":" ++ id))

structure Listing where
  region : RegionPath
  names : List EntityName
  deriving DecidableEq

namespace Listing

/-- The line of a listing, without its end. -/
def line (l : Listing) : List Char :=
  l.names.flatMap (fun e => e.text.toList ++ [' ']) ++ l.region.text.toList

/-- The text of an answer. -/
def bodyText (listings : List Listing) : List Char :=
  listings.flatMap fun l => l.line ++ ['\n']

def body (listings : List Listing) : Bytes :=
  Text.encode (bodyText listings)

/-- The listing that a line writes: the path stands after the last blank. -/
def ofLine? (line : List Char) : Option Listing := do
  let (names, path) := (Text.cutLast? ' ' line).getD ([], line)
  let region ← RegionPath.ofText? path
  let names ← (Text.words names).mapM EntityName.ofText?
  return ⟨region, names⟩

/-- The listing that a line writes, or the line as an error. -/
def ofLine (line : List Char) : Except WireError Listing :=
  match ofLine? line with
  | some l => .ok l
  | none => .error (.malformedLine (String.ofList line))

/-- The listings of a text; empty lines say nothing. -/
def ofText (cs : List Char) : Except WireError (List Listing) :=
  (Text.segments '\n' cs).mapM ofLine

/-- The listings of an answer; one bad line refuses all of it. -/
def ofBody (bytes : Bytes) : Except WireError (List Listing) :=
  match Text.decode? bytes with
  | none => .error .notUtf8
  | some cs => ofText cs

end Listing

end RegionSync
