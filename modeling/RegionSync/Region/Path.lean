import RegionSync.Position.Point
import RegionSync.Text.Split

/-!
Regions of the world, addressed from the root by the octant taken at each level. The text of a path
joins its digits by slashes; reading it ignores empty segments and a root marker `-1` in front.
-/

namespace RegionSync

/-- One of the eight octants of a cube: a bit for each axis, the first axis most significant. -/
abbrev OctantIndex := Fin 8

instance OctantIndex.neZero : @NeZero Nat Zero.ofOfNat0 8 := ⟨Nat.succ_ne_zero 7⟩

/-- The path from the root to a region. -/
structure RegionPath where
  digits : List OctantIndex
  deriving DecidableEq, Repr

/-- Why a position, a path or a geometry is refused. -/
inductive RegionError
  | outOfWorld (position : Point)
  | tooDeep (depth max : Nat)
  | invalidPath (text : String)
  | invalidGeometry (depth : Nat) (worldBits : UInt32)
  deriving DecidableEq

def RegionError.message : RegionError → String
  | outOfWorld p => s!"position ({p.x.plain}, {p.y.plain}, {p.z.plain}) is outside the world"
  | tooDeep depth max => s!"region path depth {depth} exceeds octree depth {max}"
  | invalidPath text => s!"invalid region path: {text}"
  | invalidGeometry depth bits => s!"invalid geometry: depth {depth}, world bits {bits}"

namespace RegionPath

def root : RegionPath := ⟨[]⟩

def depth (p : RegionPath) : Nat :=
  p.digits.length

def isRoot (p : RegionPath) : Bool :=
  p.digits.isEmpty

/-- The octant of a number, if it is one. -/
def index? (n : UInt8) : Option OctantIndex :=
  if h : n.toNat < 8 then some ⟨n.toNat, h⟩ else none

/-- The path of these numbers; the first that is no octant is reported. -/
def ofBytes (bytes : List UInt8) : Except RegionError RegionPath :=
  match bytes.find? (8 ≤ ·) with
  | some bad => .error (.invalidPath s!"octant index {bad}")
  | none => .ok ⟨bytes.filterMap index?⟩

def parent? (p : RegionPath) : Option RegionPath :=
  if p.digits.isEmpty then none else some ⟨p.digits.dropLast⟩

/-- The path `levels` levels up, at most up to the root. -/
def ancestor (p : RegionPath) (levels : Nat) : RegionPath :=
  ⟨p.digits.take (p.depth - levels)⟩

/-- The region in this octant of `p`. -/
def child (p : RegionPath) (i : OctantIndex) : RegionPath :=
  ⟨p.digits ++ [i]⟩

/-- The region in the octant of this number, if there is one. -/
def childAt (p : RegionPath) (n : UInt8) : Except RegionError RegionPath :=
  (ofBytes [n]).map fun q => ⟨p.digits ++ q.digits⟩

/-- The region that `q` addresses from `p`. -/
def append (p q : RegionPath) : RegionPath :=
  ⟨p.digits ++ q.digits⟩

/-- `p` is `q` or lies above it. -/
def contains (p q : RegionPath) : Bool :=
  p.digits.isPrefixOf q.digits

def digitText (i : OctantIndex) : List Char :=
  Text.decimal i.val

def text (p : RegionPath) : String :=
  String.ofList (List.intercalate ['/'] (p.digits.map digitText))

instance : ToString RegionPath := ⟨text⟩

def readDigit? (segment : List Char) : Option OctantIndex :=
  Text.readUInt8? segment >>= index?

/-- The segments without a root marker in front. -/
def withoutMarker : List (List Char) → List (List Char)
  | ['-', '1'] :: segments => segments
  | segments => segments

def ofText? (cs : List Char) : Option RegionPath :=
  ((withoutMarker (Text.segments '/' cs)).mapM readDigit?).map RegionPath.mk

/-- The path that the text writes, or the text as an error. -/
def parse (s : String) : Except RegionError RegionPath :=
  match ofText? s.toList with
  | some p => .ok p
  | none => .error (.invalidPath s)

/-- Order by digits from the root on; a region comes before those inside it. -/
def compare (p q : RegionPath) : Ordering :=
  compareOfLessAndEq p.digits q.digits

end RegionPath

end RegionSync
