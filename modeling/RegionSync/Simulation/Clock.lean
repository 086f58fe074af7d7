/-!
Sleep. How long it lasts is up to the timer of the host. The clock of a host that simulates nothing
starts at zero and passes while the host sleeps.
-/

namespace RegionSync

/-- What the host offers to sleep with. -/
structure Timer where
  /-- How many milliseconds a sleep lasts that is to last so many. -/
  slept : Nat → Nat

namespace Timer

/-- Every sleep lasts as long as it is to last. -/
def exact : Timer := ⟨id⟩

/-- Sleeps last as long as they are to last, up to a longest one. -/
def upTo (longest : Nat) : Timer := ⟨(min · longest)⟩

end Timer

namespace Clock

/-- What a clock that reads `now` reads after each of these sleeps, in milliseconds. -/
def later (timer : Timer) (now : Nat) : List Nat → List Nat
  | [] => []
  | ms :: rest => (now + timer.slept ms) :: later timer (now + timer.slept ms) rest

/-- The first reading, and one after each sleep. -/
def readings (timer : Timer) (sleeps : List Nat) : List Nat :=
  0 :: later timer 0 sleeps

/-- The seed of a host that draws its keys at random. -/
def seed : UInt64 := 0

end Clock

end RegionSync
