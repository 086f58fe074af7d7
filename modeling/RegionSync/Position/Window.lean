import RegionSync.Fault

/-!
Sequence numbers that wrap. Positions are numbered modulo a window; a number is ahead of another,
behind it or current by its distance around the circle. Arithmetic is on words and reports overflow.
-/

namespace RegionSync

/-- The circle of sequence numbers and how far apart two of them may be. -/
structure Window where
  /-- Numbers are below this. -/
  size : UInt32
  /-- The largest forward distance that counts as not produced yet. -/
  ahead : UInt32
  /-- The largest backward distance that is still served. -/
  behind : UInt32
  deriving DecidableEq, Repr

/-- How a requested number relates to the current one. -/
inductive Relation
  | ahead
  | behind
  | current
  deriving DecidableEq, Repr

namespace Window

def standard : Window := ⟨1024, 3, 20⟩

/-- The steps forward from one number to another. -/
def distance (w : Window) (start goal : UInt32) : Except Fault UInt32 := do
  let start ← Word.rem start w.size
  let goal ← Word.rem goal w.size
  Word.rem (← Word.sub (← Word.add goal w.size) start) w.size

def next (w : Window) (s : UInt32) : Except Fault UInt32 := do
  Word.rem (← Word.add s 1) w.size

def prev (w : Window) (s : UInt32) : Except Fault UInt32 := do
  let s ← Word.rem s w.size
  Word.rem (← Word.sub (← Word.add s w.size) 1) w.size

/-- How `requested` relates to `current`. -/
def relate (w : Window) (current requested : UInt32) : Except Fault Relation := do
  let forward ← w.distance current requested
  let backward ← w.distance requested current
  if 1 ≤ forward ∧ forward ≤ w.ahead then return .ahead
  else if w.behind < backward then return .behind
  else return .current

/-- An answer numbered `received` replaces what is held: it lies in the forward half, or nothing is
held, or the held number is the last of the window. -/
def isNewer (w : Window) (held : Option UInt32) (received : UInt32) : Except Fault Bool := do
  match held with
  | none => return true
  | some held =>
    if held = (← Word.sub w.size 1) then return true
    else
      let forward ← w.distance held received
      return decide (1 ≤ forward ∧ forward ≤ w.size / 2)

end Window

end RegionSync
