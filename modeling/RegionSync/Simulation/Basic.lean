import RegionSync.Instance.Answering
import RegionSync.Instance.Task
import RegionSync.Network.Agenda
import RegionSync.Network.Hub
import RegionSync.Simulation.Clock

/-!
The state of a simulation: instances on one hub in virtual time. Whatever is to happen stands in an
agenda; time moves to what is due next, and what is due happens step by step, everybody in turn. The
host is one of many: what it hears from others it takes up when nothing else is due, but its own
patience ends before all else that is due at the time.
-/

namespace RegionSync

open Network

/-- A responder that follows a script instead of a protocol. -/
structure Script where
  /-- Milliseconds until it answers. -/
  delay : Nat
  /-- The content of the answer, if it answers at all. -/
  content : Option Bytes
  /-- The name of the answer, if not that of the request. -/
  name : Option Name
  secret : Bytes

namespace Script

/-- The answer of a script to a request under a name. -/
def answer (σ : Scheme) (s : Script) (requested : Name) : Option Response :=
  s.content.bind fun content =>
    (σ.respond s.secret (s.name.getD requested) content 500 7).toOption

end Script

inductive Responder
  | seat (index : Nat) (handler : Handler)
  | script (s : Script)

/-- An instance at its node, and what its transport refuses to do. -/
structure Seat where
  node : NodeId
  running : Instance
  /-- Names that start so cannot be registered. -/
  refused : Option Name := none
  mute : Bool := false
  /-- Registrations cannot be taken back. -/
  sticky : Bool := false

/-- A task of the instance in a seat, and what it waits for. -/
structure Thread where
  id : Nat
  seat : Nat
  task : Task
  wait : Wait

inductive Asker
  | thread (id : Nat) (about : Option EntityName)
  /-- The host, through a bare node. -/
  | host

/-- A request that may still be answered. -/
structure Exchange where
  id : Nat
  asker : Asker

/-- A request on its way to one route, and its answer on the way back. -/
structure Offer where
  exchange : Nat
  asker : NodeId
  route : Route Responder
  request : Request

/-- How far an offer has come. -/
inductive Leg
  | arrival
  /-- The responder looks again at a request that it made wait. -/
  | again (retries : Nat)
  | answered (response : Response)
  | back (response : Response)

/-- What can be due. -/
inductive Happening
  | offer (offer : Offer) (leg : Leg)
  /-- A request is not answered in time. -/
  | expiry (exchange : Nat)
  /-- A thread makes one of several requests. -/
  | asking (thread : Nat) (asked : Asked)
  | input (thread : Nat) (input : Input)

structure Simulation where
  timer : Timer
  /-- Milliseconds since the beginning. -/
  now : Nat
  hub : Hub Responder
  seats : List Seat
  threads : List Thread
  exchanges : List Exchange
  agenda : Agenda Happening
  /-- What the host takes up when nothing else is due. -/
  held : List Happening
  /-- Numbers threads and exchanges. -/
  fresh : Nat
  /-- The reports so far with their times and seats, the last first. -/
  log : List (Nat × Nat × Event)
  /-- What the calls of the host came to. -/
  results : List (Nat × TaskResult)
  /-- What the last request of the host came to. -/
  heard : Option (Option Response)

namespace Simulation

/-- The wall clock at the beginning, in milliseconds. -/
def epoch : Nat := 1704067200000

/-- A simulation in which nothing happens yet. -/
def ofHub (timer : Timer) (hub : Hub Responder) : Simulation :=
  ⟨timer, 0, hub, [], [], [], [], [], 0, [], [], none⟩

def timestamp (s : Simulation) : UInt64 :=
  .ofNat (epoch + s.now)

/-- Puts something on the agenda, so many milliseconds from now. -/
def after (s : Simulation) (milliseconds : Nat) (what : Happening) : Simulation :=
  { s with agenda := s.agenda.schedule (s.now + milliseconds) what }

/-- What is to happen next, before all else that is due. -/
def atOnce (s : Simulation) (what : List Happening) : Simulation :=
  { s with agenda := what.map (s.now, ·) ++ s.agenda }

/-- Has something happen after a wait; one that takes no time is over at once. -/
def afterWait (s : Simulation) (milliseconds : Nat) (what : Happening) : Simulation :=
  if milliseconds = 0 then s.atOnce [what] else s.after milliseconds what

/-- Has something happen after a sleep. -/
def afterSleep (s : Simulation) (milliseconds : Nat) (what : Happening) : Simulation :=
  s.afterWait (s.timer.slept milliseconds) what

/-- Puts off what the host hears until nothing else is due. -/
def holdBack (s : Simulation) (what : Happening) : Simulation :=
  { s with held := s.held ++ [what] }

/-- Something is due by now. -/
def isBusy (s : Simulation) : Bool :=
  match s.agenda with
  | [] => false
  | (due, _) :: _ => decide (due ≤ s.now)

/-- The thread does what the host asked for. -/
def isOfHost (s : Simulation) (thread : Nat) : Bool :=
  s.threads.any fun t => t.id == thread && t.task.isOfHost

/-- The host itself waits for the answer; polls of players wait on their own. -/
def isAwaited (s : Simulation) : Asker → Bool
  | .host => true
  | .thread id none => s.isOfHost id
  | .thread _ (some _) => false

def mapSeat (s : Simulation) (k : Nat) (f : Seat → Seat) : Simulation :=
  { s with seats := s.seats.modify k f }

def report (s : Simulation) (k : Nat) (events : List Event) : Simulation :=
  { s with log := (events.map fun e => (s.now, k, e)).reverse ++ s.log }

end Simulation

end RegionSync
