import RegionSync.Region.Geometry
import RegionSync.Region.Octant

/-!
The octree of regions that a peer knows: which nodes exist, which are tracked, and who is in each
leaf. Members live in leaves only; the members of an inner region are gathered from the leaves
below.
-/

namespace RegionSync

/-- An octree as deep as its geometry says. -/
structure Octree where
  geometry : Geometry
  top : Octant geometry.depth

namespace Octree

def empty (g : Geometry) : Octree := ⟨g, .empty g.depth⟩

def isLeaf (t : Octree) (p : RegionPath) : Bool :=
  p.depth == t.geometry.depth

/-- The node of a region, with the levels below it. -/
def lookup? (t : Octree) (p : RegionPath) : Option ((m : Nat) × Octant m) :=
  t.top.lookup? p.digits

/-- The octree with the node of a region changed and the way there created. -/
def alter (t : Octree) (p : RegionPath) (f : {m : Nat} → Octant m → Octant m) : Octree :=
  { t with top := t.top.alter f p.digits }

/-- As `alter`, for a region that has to be within the octree's depth. -/
def alterWithin (t : Octree) (p : RegionPath) (f : {m : Nat} → Octant m → Octant m) :
    Except RegionError Octree :=
  if t.geometry.depth < p.depth then .error (.tooDeep p.depth t.geometry.depth)
  else .ok (t.alter p f)

/-- The octree with the node of a region. -/
def insert (t : Octree) (p : RegionPath) : Except RegionError Octree :=
  t.alterWithin p id

/-- The members of a region: those of the leaves in it, in order of the leaves, each once. -/
def namesIn? (t : Octree) (p : RegionPath) : Option NameSet :=
  (t.lookup? p).map fun ⟨_, node⟩ => .ofList node.leafNames.flatten

/-- The digest of a region's members. A leaf has it at hand. -/
def digest? (t : Octree) (p : RegionPath) : Option UInt32 :=
  if t.isLeaf p then (t.lookup? p).map fun ⟨_, node⟩ => node.ownNames.digest
  else (t.namesIn? p).map (·.digest)

def track (t : Octree) (p : RegionPath) : Except RegionError Octree :=
  t.alterWithin p (Octant.mark true)

def isTracked (t : Octree) (p : RegionPath) : Bool :=
  match t.lookup? p with
  | some ⟨_, node⟩ => node.tracked
  | none => false

/-- The octree with a region not tracked. -/
def untrack (t : Octree) (p : RegionPath) : Octree :=
  if t.isTracked p then t.alter p (Octant.mark false) else t

/-- The region or one inside it is tracked. -/
def tracksWithin (t : Octree) (p : RegionPath) : Bool :=
  match t.lookup? p with
  | some ⟨_, node⟩ => node.anyTracked
  | none => false

/-- A player is a member of the leaf. -/
def hasName (t : Octree) (p : RegionPath) (e : EntityName) : Bool :=
  match t.lookup? p with
  | some ⟨_, node⟩ => node.ownNames.contains e
  | none => false

/-- The octree with a player in a leaf. -/
def addName (t : Octree) (p : RegionPath) (e : EntityName) : Except RegionError Octree :=
  if t.isLeaf p then t.alterWithin p (Octant.mapNames fun s => (s.insert e).refresh)
  else .error (.invalidPath s!"{p} is not a leaf")

/-- The octree without a player in a leaf. -/
def removeName (t : Octree) (p : RegionPath) (e : EntityName) : Octree :=
  if (t.lookup? p).isSome then t.alter p (Octant.mapNames fun s => (s.remove e).refresh) else t

/-- The paths of the tracked leaves in order. -/
def trackedLeaves (t : Octree) : List RegionPath :=
  t.top.trackedLeaves.map RegionPath.mk

def size (t : Octree) : Nat :=
  t.top.count

def isEmpty (t : Octree) : Bool :=
  t.top.childIndices.isEmpty

end Octree

end RegionSync
