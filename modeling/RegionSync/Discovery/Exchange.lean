import RegionSync.Discovery.Listing
import RegionSync.Discovery.Query
import RegionSync.Region.Octree

/-!
The discovery protocol over an octree. A requester claims a digest for each region it asks about;
whoever tracks a claimed region and has another digest there answers with its members, and the
requester takes up the names that it does not know.
-/

namespace RegionSync.Discovery

/-- What one request of a sweep asks about. -/
inductive Target
  /-- One region. -/
  | region (path : RegionPath)
  /-- Several children of one region. -/
  | siblings (parent : RegionPath) (children : List OctantIndex)
  deriving DecidableEq, Repr

/-- The target of these child numbers; those that are no octants are left out. -/
def Target.ofBytes (parent : RegionPath) (children : List UInt8) : Target :=
  .siblings parent (children.filterMap RegionPath.index?)

/-- The digest to claim for a region; zero where there is no node. -/
def claim (t : Octree) (region : RegionPath) : UInt32 :=
  (t.digest? region).getD 0

/-- The query that asks about a target. -/
def queryFor (t : Octree) : Target → Query
  | .region path => ⟨path, .whole (claim t path)⟩
  | .siblings parent children =>
    ⟨parent, .parts (children.map fun i => (⟨[i]⟩, claim t (parent.child i)))⟩

/-- The request that asks about a target. -/
def request (broadcast : Name) (lifetime : Nat) (t : Octree) (target : Target) : Request :=
  ⟨(queryFor t target).name broadcast, lifetime, true⟩

/-- The region is tracked here and has another digest than the one claimed. -/
def differs (t : Octree) (region : RegionPath) (claimed : UInt32) : Bool :=
  t.isTracked region && claim t region != claimed

/-- The listing of a region that has a node. -/
def listing? (t : Octree) (region : RegionPath) : Option Listing :=
  (t.namesIn? region).map fun s => ⟨region, s.names⟩

/-- The listings of the claimed regions that differ; none means nothing to say. -/
def answer (t : Octree) (q : Query) : List Listing :=
  q.claims.filterMap fun (region, claimed) =>
    if differs t region claimed then listing? t region else none

/-- The names of a listing that are news: it is about a tracked leaf, and each name is neither the
own one nor in that leaf nor found before. -/
def unknownIn (t : Octree) (self : EntityName) (found : List (RegionPath × EntityName))
    (l : Listing) : List (RegionPath × EntityName) :=
  if t.isTracked l.region && t.isLeaf l.region then
    l.names.foldl (fun found e =>
      if e == self || t.hasName l.region e || found.any (·.2 == e) then found
      else found ++ [(l.region, e)]) found
  else found

/-- The names in listings that are news here, each with the first leaf that lists it. -/
def unknown (t : Octree) (listings : List Listing) (self : EntityName) :
    List (RegionPath × EntityName) :=
  listings.foldl (unknownIn t self) []

end RegionSync.Discovery
