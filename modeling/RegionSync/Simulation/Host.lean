import RegionSync.Simulation.Step

/-!
What the host of a simulation does: it seats instances, calls them, lets time pass and makes
requests of its own. A call runs on while it can; time passes only while the host waits.
-/

namespace RegionSync.Simulation

open Network

/-- Nothing is left to happen. -/
def isOver (s : Simulation) : Bool :=
  s.agenda.isEmpty && s.held.isEmpty

/-- Runs until the condition holds or nothing is left to happen. -/
def run (σ : Scheme) (stop : Simulation → Bool) : Nat → Simulation → Simulation
  | 0, s => s
  | fuel + 1, s =>
    if stop s || s.isOver then s else run σ stop fuel (s.step σ)

/-- How many steps a wait of the host may take. As long as only scripts answer, every wait is over
before; the tasks of instances can go on without end, and so a bound is needed. -/
def budget (s : Simulation) : Nat :=
  10 ^ 12 + 4 * s.agenda.length

/-- Lets time pass. What is due when the time is over has still to happen. -/
def sleep (σ : Scheme) (s : Simulation) (milliseconds : Nat) : Simulation :=
  let goal := s.now + s.timer.slept milliseconds
  let due (s : Simulation) : Bool := match s.agenda with
    | [] => false
    | (t, _) :: _ => decide (goal ≤ t)
  { run σ due s.budget s with now := goal }

/-- Seats an instance at a node. -/
def seat (s : Simulation) (node : NodeId) (i : Instance) : Nat × Simulation :=
  (s.seats.length, { s with seats := s.seats ++ [{ node, running := i }] })

def instance? (s : Simulation) (k : Nat) : Option Instance :=
  s.seats[k]?.map (·.running)

/-- Runs what the host asks of the instance in a seat to its end. -/
def complete (σ : Scheme) (s : Simulation) (k : Nat) (first : Instance → Task.Step) :
    Option TaskResult × Simulation :=
  match s.seats[k]? with
  | none => (none, s)
  | some seat =>
    let id := s.fresh
    let s := { s with fresh := id + 1, results := [] }.take id k seat (first seat.running)
    let s := run σ (fun s => (s.results.lookup id).isSome) s.budget s
    (s.results.lookup id, s)

/-- Makes a call on the instance in a seat. -/
def call (σ : Scheme) (s : Simulation) (k : Nat) (first : Instance → Call.Step) :
    Except PeerError Unit × Simulation :=
  match s.complete σ k fun i => Task.callStep (first i) with
  | (some (.called result), s) => (result, s)
  | (_, s) => (.ok (), s)

/-- Makes a single pass; the value says if it was complete. -/
def pass (σ : Scheme) (s : Simulation) (k : Nat) (first : Instance → Task.Step) :
    Except Fault Bool × Simulation :=
  match s.complete σ k first with
  | (some (.swept complete), s) => (.ok complete, s)
  | (some (.crashed fault), s) => (.error fault, s)
  | (_, s) => (.ok false, s)

def discoverySweep (σ : Scheme) (s : Simulation) (k : Nat) : Except Fault Bool × Simulation :=
  s.pass σ k fun i => Task.beginSweep i s.now none

def positionSweep (σ : Scheme) (s : Simulation) (k : Nat) : Except Fault Bool × Simulation :=
  s.pass σ k fun i => Task.beginPoll i s.now none

/-- The host goes on after its request: at once when its patience ends, and when nothing else is due
if there is an answer. -/
def goesOn (s : Simulation) : Bool :=
  match s.heard with
  | none => false
  | some none => true
  | some (some _) => !s.isBusy

/-- Makes a request from a bare node and waits for what comes of it. -/
def request (σ : Scheme) (s : Simulation) (node : NodeId) (r : Request) :
    Except Fault (Option Response) × Simulation :=
  match { s with heard := none }.express node r .host with
  | (false, s) => (.error .badChance, s)
  | (true, s) =>
    let s := run σ goesOn s.budget s
    (.ok s.heard.join, s)

def registerScript (s : Simulation) (node : NodeId) (name : Name) (script : Script) :
    RegistrationId × Simulation :=
  let (id, hub) := s.hub.register node name (.script script)
  (id, { s with hub })

/-- Takes back a registration of a node. -/
def unregister (s : Simulation) (node : NodeId) (id : RegistrationId) :
    Except TransportError Simulation :=
  (s.hub.unregister node id).map fun hub => { s with hub }

def setConditions (s : Simulation) (f : Conditions → Conditions) : Simulation :=
  { s with hub := { s.hub with conditions := f s.hub.conditions } }

/-- Moves the player of the instance in a seat. -/
def move (s : Simulation) (k : Nat) (position : Point) : Except RegionError Simulation :=
  match s.instance? k with
  | none => .ok s
  | some i => do
    let peer ← i.peer.moveTo position
    return s.mapSeat k fun seat => { seat with running := { i with peer } }

end RegionSync.Simulation
