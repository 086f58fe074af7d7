import RegionSync.Random.Normal
import RegionSync.Region.Geometry

/-!
The truth about a simulated world: where every avatar really is. Avatars walk at random and are kept
a margin away from the far faces of the world.
-/

namespace RegionSync

/-- An avatar, by the number of the peer it belongs to. -/
structure Avatar where
  id : Nat
  position : Point
  /-- It does not walk. -/
  frozen : Bool
  deriving DecidableEq

/-- The avatars of a world in order of their numbers, and the source of their walk. -/
structure Truth where
  geometry : Geometry
  source : Random.Generator
  avatars : List Avatar
  /-- The standard deviation of a walk along an axis after one second. -/
  speed : Single
  /-- Seconds since the beginning. -/
  time : Double

namespace Truth

/-- Avatars keep this far away from the far faces. -/
def margin : Single := .half

/-- A world without avatars, in which they walk at four units. -/
def ofSeed (geometry : Geometry) (seed : UInt64) : Truth :=
  ⟨geometry, .ofSeed seed, [], .ofNat 4, .zero⟩

def setSpeed (t : Truth) (speed : Single) : Truth :=
  { t with speed := speed.max .zero }

def limit (t : Truth) : Single :=
  t.geometry.extent.sub margin

def avatar? (t : Truth) (id : Nat) : Option Avatar :=
  t.avatars.find? (·.id == id)

def position? (t : Truth) (id : Nat) : Option Point :=
  (t.avatar? id).map (·.position)

/-- The leaf in which an avatar is, if the avatar exists. -/
def leafOf (t : Truth) (id : Nat) : Except Fault (Option RegionPath) :=
  match t.position? id with
  | none => .ok none
  | some p => (t.geometry.leafAt p).map Except.toOption

/-- The avatars with one that is not among them in its place. -/
def insert (a : Avatar) : List Avatar → List Avatar
  | [] => [a]
  | b :: rest => if a.id < b.id then a :: b :: rest else b :: insert a rest

/-- A coordinate brought into the world; one that is not finite becomes zero. -/
def bring (t : Truth) (c : Single) : Single :=
  if c.isFinite then c.clamp .zero t.limit else .zero

/-- Puts an avatar somewhere, a new one if it does not exist. -/
def place (t : Truth) (id : Nat) (position : Point) : Truth :=
  let position := position.map t.bring
  if (t.avatar? id).isSome then
    { t with avatars := t.avatars.map fun a => if a.id = id then { a with position } else a }
  else { t with avatars := insert ⟨id, position, false⟩ t.avatars }

def freeze (t : Truth) (id : Nat) : Truth :=
  { t with avatars := t.avatars.map fun a => if a.id = id then { a with frozen := true } else a }

def remove (t : Truth) (id : Nat) : Truth :=
  { t with avatars := t.avatars.filter (·.id != id) }

/-- Draws a coordinate of a region, away from its faces. -/
def draw (size inset low : Single) (g : Random.Generator) : Single × Random.Generator :=
  let (f, g) := g.fraction32
  let room := (size.sub ((Binary.ofNat 2).mul inset)).sub margin
  ((low.add inset).add (f.mul room), g)

/-- Puts an avatar anywhere in a region but for an inset along its faces; nowhere if there is no
such region. -/
def spawnIn (t : Truth) (id : Nat) (region : RegionPath) (inset : Single) :
    Except Fault (Option Point × Truth) := do
  match ← t.geometry.cubeOf region with
  | .error _ => return (none, t)
  | .ok cube =>
    let inset := inset.clamp .zero ((cube.size.div (.ofNat 2)).sub margin)
    let (x, g) := draw cube.size inset cube.min.x t.source
    let (y, g) := draw cube.size inset cube.min.y g
    let (z, g) := draw cube.size inset cube.min.z g
    return (some ⟨x, y, z⟩, { t with source := g }.place id ⟨x, y, z⟩)

/-- Moves a coordinate by a sample, but not out of the world. -/
def stray (t : Truth) (c delta : Single) : Single :=
  (c.add delta).clamp .zero t.limit

/-- Lets the avatars that are not frozen walk, one after the other and axis by axis. -/
def walk (t : Truth) (deviation : Single) :
    List Avatar → Random.Generator → List Avatar × Random.Generator
  | [], g => ([], g)
  | a :: rest, g =>
    if a.frozen then
      let (rest, g) := walk t deviation rest g
      (a :: rest, g)
    else
      let (x, g) := Random.normal deviation g
      let (y, g) := Random.normal deviation g
      let (z, g) := Random.normal deviation g
      let p := a.position
      let (rest, g) := walk t deviation rest g
      ({ a with position := ⟨t.stray p.x x, t.stray p.y y, t.stray p.z z⟩ } :: rest, g)

/-- Lets seconds pass. Where no deviation comes of them, nobody moves. -/
def step (t : Truth) (seconds : Double) : Truth :=
  let t := { t with time := t.time.add seconds }
  let deviation := t.speed.mul (seconds.convert .single).sqrt
  if deviation.isFinite then
    let (avatars, source) := t.walk deviation t.avatars t.source
    { t with avatars, source }
  else t

end Truth

end RegionSync
