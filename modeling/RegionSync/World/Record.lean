import RegionSync.Peer.Event

/-!
What a host has been told by its peer: the last report of every kind, and how many there were.
-/

namespace RegionSync

/-- The reports of a peer so far. -/
structure Record where
  /-- The last location of every player reported, the latest player first. -/
  locations : List (EntityName × Location)
  /-- The players reported as dropped, in order. -/
  drops : List EntityName
  /-- The last render tag of every player. -/
  tags : List (EntityName × String)
  errors : Nat

namespace Record

def empty : Record := ⟨[], [], [], 0⟩

/-- The list with the entry of a key replaced. -/
def put {α : Type} (key : EntityName) (value : α) (entries : List (EntityName × α)) :
    List (EntityName × α) :=
  (key, value) :: entries.filter (·.1 != key)

def note (r : Record) : Event → Record
  | .log .error _ => { r with errors := r.errors + 1 }
  | .log .. => r
  | .tagged e tag => { r with tags := put e tag r.tags }
  | .located e l => { r with
      locations := put e l r.locations
      drops := if l = .dropped then r.drops ++ [e] else r.drops }

def ofEvents (events : List Event) : Record :=
  events.foldl note empty

end Record

end RegionSync
