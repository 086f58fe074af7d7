import RegionSync.Fault
import RegionSync.Region.Path

/-!
The cubic world and its regions. Each level of the octree halves every axis, so the path of a leaf
interleaves the leading bits of its coordinates, and a region is the cube of all points whose paths
go through it.
-/

namespace RegionSync

/-- A cube with edges along the axes; the minimum faces belong to it and the maximum ones do not. -/
structure Cube where
  min : Point
  size : Single
  deriving DecidableEq

namespace Cube

/-- The coordinate lies between the faces of one axis. -/
def spans (low size c : Single) : Bool :=
  Binary.le low c && Binary.lt c (low.add size)

def contains (cube : Cube) (p : Point) : Bool :=
  spans cube.min.x cube.size p.x && spans cube.min.y cube.size p.y &&
    spans cube.min.z cube.size p.z

def center (cube : Cube) : Point :=
  cube.min.shift (cube.size.div (.ofNat 2))

end Cube

/-- The world is a cube of edge `2 ^ worldBits` at the origin, cut into `depth` levels. -/
structure Geometry where
  depth : Nat
  worldBits : UInt32
  deriving DecidableEq, Repr

namespace Geometry

/-- A geometry as long as every whole coordinate is exact; depths are compared as 32-bit words. -/
def make (depth : Nat) (worldBits : UInt32) : Except RegionError Geometry :=
  if depth = 0 ∨ 24 < worldBits ∨ worldBits < UInt32.ofNat depth then
    .error (.invalidGeometry depth worldBits)
  else .ok ⟨depth, worldBits⟩

/-- Seven levels over an edge of 65536. -/
def standard : Geometry := ⟨7, 16⟩

def extent (g : Geometry) : Single :=
  .ofNat (2 ^ g.worldBits.toNat)

/-- The edge of a region this many levels below the root, as a whole number. -/
def edgeAt (g : Geometry) (depth : Nat) : Nat :=
  2 ^ (g.worldBits.toNat - depth % 2 ^ 32)

def leafSize (g : Geometry) : Single :=
  .ofNat (g.edgeAt g.depth)

/-- A coordinate from zero up to but not including the extent. -/
def inside (g : Geometry) (c : Single) : Bool :=
  Binary.le .zero c && Binary.lt c g.extent

def inWorld (g : Geometry) (p : Point) : Bool :=
  g.inside p.x && g.inside p.y && g.inside p.z

/-- The bit of a coordinate that a level looks at. -/
def bitAt (shift : Nat) (c : Nat) : Nat :=
  c / 2 ^ shift % 2

theorem bitAt_lt (shift c : Nat) : bitAt shift c < 2 :=
  Nat.mod_lt _ (by decide)

/-- The octant of whole coordinates at the level whose bit has this place. -/
def octantAt (shift x y z : Nat) : OctantIndex :=
  ⟨bitAt shift x * 4 + bitAt shift y * 2 + bitAt shift z, by
    have := bitAt_lt shift x
    have := bitAt_lt shift y
    have := bitAt_lt shift z
    omega⟩

/-- The leaf of whole coordinates. -/
def leaf (g : Geometry) (x y z : Nat) : RegionPath :=
  ⟨(List.range g.depth).map fun level => octantAt (g.worldBits.toNat - 1 - level) x y z⟩

/-- The leaf of a point of the world; coordinates count by their whole parts. -/
def leaf? (g : Geometry) (p : Point) : Option RegionPath :=
  if g.inWorld p then some (g.leaf p.x.floor p.y.floor p.z.floor) else none

/-- The leaf of a point. There is none outside the world, and no bit to look at below the lowest. -/
def leafAt (g : Geometry) (p : Point) : Except Fault (Except RegionError RegionPath) :=
  if !g.inWorld p then .ok (.error (.outOfWorld p))
  else if g.worldBits.toNat < g.depth then .error .overflow
  else .ok (.ok (g.leaf p.x.floor p.y.floor p.z.floor))

/-- The cell of a path at its own depth, as whole numbers along each axis. -/
def cell (digits : List OctantIndex) : Nat × Nat × Nat :=
  digits.foldl (fun (x, y, z) d =>
    (2 * x + d.val / 4 % 2, 2 * y + d.val / 2 % 2, 2 * z + d.val % 2)) (0, 0, 0)

def cube (g : Geometry) (path : RegionPath) : Cube :=
  let size := g.edgeAt path.depth
  let (x, y, z) := cell path.digits
  ⟨⟨.ofNat (x * size), .ofNat (y * size), .ofNat (z * size)⟩, .ofNat size⟩

/-- The cube of a region that the octree reaches and whose edge is a whole number. -/
def cubeOf (g : Geometry) (path : RegionPath) : Except Fault (Except RegionError Cube) :=
  if g.depth < path.depth then .ok (.error (.tooDeep path.depth g.depth))
  else if g.worldBits.toNat < path.depth % 2 ^ 32 then .error .overflow
  else .ok (.ok (g.cube path))

end Geometry

end RegionSync
