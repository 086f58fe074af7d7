import RegionSync.Binary.Decimal

/-! Points of the world: three coordinates of 32 bits. -/

namespace RegionSync

/-- A point, or the distance between two. -/
structure Point where
  x : Single
  y : Single
  z : Single
  deriving DecidableEq

namespace Point

def coordinates (p : Point) : List Single :=
  [p.x, p.y, p.z]

theorem forall_coordinates {p : Point} {P : Single → Prop} :
    (∀ c ∈ p.coordinates, P c) ↔ P p.x ∧ P p.y ∧ P p.z := by
  simp only [coordinates, List.forall_mem_cons, List.not_mem_nil, false_imp_iff, implies_true,
    and_true]

def map (f : Single → Single) (p : Point) : Point :=
  ⟨f p.x, f p.y, f p.z⟩

def add (p q : Point) : Point :=
  ⟨p.x.add q.x, p.y.add q.y, p.z.add q.z⟩

def sub (p q : Point) : Point :=
  ⟨p.x.sub q.x, p.y.sub q.y, p.z.sub q.z⟩

/-- The point moved by the same distance along every axis. -/
def shift (p : Point) (d : Single) : Point :=
  p.map (·.add d)

/-- Numeric equality of all coordinates. -/
def eq (p q : Point) : Bool :=
  p.x.eq q.x && p.y.eq q.y && p.z.eq q.z

/-- The length, squares summed from the first axis on. -/
def length (p : Point) : Single :=
  (((p.x.mul p.x).add (p.y.mul p.y)).add (p.z.mul p.z)).sqrt

def message (p : Point) : String :=
  let texts := p.coordinates.map fun c => String.ofList (c.text .message)
  "[[" ++ ", ".intercalate texts ++ "]]"

end Point

end RegionSync
