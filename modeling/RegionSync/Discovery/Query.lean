import RegionSync.Discovery.Frame
import RegionSync.Message

/-!
Discovery requests. The name of a request is the broadcast name, the digits of a region, and a frame
that claims what the requester holds there.
-/

namespace RegionSync

/-- A region and what the requester holds for it. -/
structure Query where
  region : RegionPath
  frame : Frame
  deriving DecidableEq

namespace Query

/-- The name extended by the digits of a region. -/
def regionName (broadcast : Name) (region : RegionPath) : Name :=
  region.digits.foldl (fun name i => name.child (String.ofList (RegionPath.digitText i))) broadcast

def name (broadcast : Name) (q : Query) : Name :=
  (regionName broadcast q.region).child q.frame.component

/-- The query under this name: the last component is the frame, those before it the region. -/
def ofName (broadcast name : Name) : Except WireError Query := do
  let some components := broadcast.rest? name | throw (.unexpectedName name.text)
  let some component := components.getLast? | throw (.unexpectedName name.text)
  match RegionPath.parse ("/".intercalate components.dropLast) with
  | .error e => throw (.region e)
  | .ok region => return ⟨region, ← Frame.ofComponent component⟩

/-- The regions that the query names, with the digest claimed for each. -/
def claims (q : Query) : List (RegionPath × UInt32) :=
  match q.frame with
  | .whole digest => [(q.region, digest)]
  | .parts entries => entries.map fun (path, digest) => (q.region.append path, digest)

end Query

end RegionSync
