import RegionSync.Name
import RegionSync.Text.Quoted

/-!
Names of players: an owner and an id, written `owner:id`, and the names under which a player
answers.
-/

namespace RegionSync

structure EntityName where
  owner : String
  id : String
  deriving DecidableEq, Repr

namespace EntityName

/-- A part of an entity name: not empty, without colons and blanks. -/
def isPart (s : String) : Bool :=
  !s.toList.isEmpty && s.toList.all fun c => c != ':' && !Text.isBlank c

/-- Both parts are parts, and the id is a single component. -/
def isValid (owner id : String) : Bool :=
  isPart owner && isPart id && !id.toList.contains '/'

/-- The name of these parts, if they may be parts of one. -/
def make? (owner id : String) : Option EntityName :=
  if isValid owner id then some ⟨owner, id⟩ else none

/-- The name that the text writes, cut at the first colon. -/
def ofText? (cs : List Char) : Option EntityName := do
  let (owner, id) ← Text.cutFirst? ':' cs
  make? (String.ofList owner) (String.ofList id)

def text (e : EntityName) : String :=
  e.owner ++ ":" ++ e.id

instance : ToString EntityName := ⟨text⟩

/-- The name under which the player answers. -/
def playerName (e : EntityName) : Name :=
  (((Name.ofText? e.owner).getD .root).child "players").child e.id

/-- The name under which the player's positions stand. -/
def positionName (e : EntityName) : Name :=
  e.playerName.child "position"

/-- The name of the player's render tag. -/
def renderName (e : EntityName) : Name :=
  (e.playerName.child "info").child "render"

def compare (a b : EntityName) : Ordering :=
  (compareOfLessAndEq a.owner b.owner).then (compareOfLessAndEq a.id b.id)

end EntityName

end RegionSync
