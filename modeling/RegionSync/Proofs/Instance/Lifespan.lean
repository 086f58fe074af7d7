import RegionSync.Instance.Task
import RegionSync.Proofs.Instance.Session

/-!
The span of an instance from its start to its shutdown, each called once, in either order and with
any overlap. The two calls and the tasks that the start begins run from wait to wait. The transport
answers when it likes: it registers what it is asked to, and takes back what stands.
-/

namespace RegionSync

/-- The call that a task makes, if it is one or is in the middle of one. -/
def Task.call? : Task → Option Call
  | publish c => some c
  | call c => some c
  | _ => none

/-- An input that is not part of a call, and can come in. -/
def Input.comes (i : Instance) : Input → Bool
  | call _ => false
  | stop => i.stopped
  | _ => true

/-- How far a task has come. -/
inductive Strand
  | waits (task : Task)
  /-- What the task waits for has happened, but it did not run on yet. -/
  | heard (task : Task) (input : Input)
  | done (result : TaskResult)

namespace Strand

/-- What can happen to a task. -/
inductive Turn
  /-- The lock, which is free, goes to the task, or it learns that all tasks have ended. -/
  | grant
  /-- The transport does what the task waits for; a new registration gets this number. -/
  | answer (id : RegistrationId)
  /-- Something else that the task can wait for. -/
  | hear (input : Input)
  | resume

def ofProgress : Task.Progress → Strand
  | .waits task _ => waits task
  | .done result => done result

def isDone : Strand → Bool
  | done _ => true
  | _ => false

/-- What a turn leaves. -/
structure Move where
  after : Instance
  live : List Registration
  begun : List Job
  strand : Strand

def Move.ofStep (live : List Registration) (step : Task.Step) : Move :=
  ⟨step.after, live, step.begun, ofProgress step.progress⟩

/-- What the instance itself has for a call that waits for it. -/
def given? (i : Instance) : Need → Option Signal
  | .lock => if i.locked then none else some .locked
  | .quiet => if i.tasks = 0 then some .quiet else none
  | _ => none

/-- A turn of a task, if it is possible. -/
def next (σ : Scheme) (i : Instance) (live : List Registration) (now : Nat) :
    Strand → Turn → Option Move
  | waits task, .grant =>
    (task.call?.bind fun call => given? i (call.need i)).map fun signal =>
      .ofStep live (task.resume σ i now (.call signal))
  | waits task, .answer id =>
    (task.call?.bind fun call => Registration.serve live (call.need i) (.ok id)).map
      fun (signal, live) => ⟨i, live, [], heard task (.call signal)⟩
  | waits task, .hear input =>
    if task.call?.isNone ∧ input.comes i then some ⟨i, live, [], heard task input⟩ else none
  | heard task input, .resume => some (.ofStep live (task.resume σ i now input))
  | _, _ => none

end Strand

/-- Whose turn it is. -/
inductive Party
  | start
  | shutdown
  | own (k : Nat)
  deriving DecidableEq

structure Lifespan where
  running : Instance
  /-- The registrations at the transport. -/
  live : List Registration
  /-- The start, once it is called. -/
  start : Option Strand
  shutdown : Option Strand
  /-- The tasks of the instance in the order in which they were begun. -/
  own : List Strand

namespace Lifespan

/-- Before the start and the shutdown of an instance. -/
def ofInstance (i : Instance) (live : List Registration) : Lifespan :=
  ⟨i, live, none, none, []⟩

def strand? (s : Lifespan) : Party → Option Strand
  | .start => s.start
  | .shutdown => s.shutdown
  | .own k => s.own[k]?

def put (s : Lifespan) (party : Party) (strand : Strand) : Lifespan :=
  match party with
  | .start => { s with start := some strand }
  | .shutdown => { s with shutdown := some strand }
  | .own k => { s with own := s.own.set k strand }

/-- What can happen next. -/
inductive Action
  | start
  | shutdown
  | turn (party : Party) (turn : Strand.Turn) (now : Nat)
  /-- The peer does something that has nothing to do with tracking. -/
  | other (operation : Peer.Operation)

/-- The state after a turn of a party. -/
def take (s : Lifespan) (party : Party) (move : Strand.Move) : Lifespan :=
  let s := s.put party move.strand
  { s with
    running := move.after
    live := move.live
    own := s.own ++ move.begun.map fun job => .waits (.begin job) }

/-- The state after an action; one that is not possible changes nothing. -/
def act (σ : Scheme) (s : Lifespan) : Action → Lifespan
  | .start =>
    if s.start.isSome then s
    else s.take .start (.ofStep s.live (Task.callStep s.running.start))
  | .shutdown =>
    if s.shutdown.isSome then s
    else s.take .shutdown (.ofStep s.live (Task.callStep s.running.shutdown))
  | .turn party turn now =>
    match (s.strand? party).bind fun strand => strand.next σ s.running s.live now turn with
    | some move => s.take party move
    | none => s
  | .other operation =>
    if operation.retracks then s
    else { s with running := { s.running with peer := (s.running.peer.step σ operation).1 } }

def run (σ : Scheme) (s : Lifespan) (actions : List Action) : Lifespan :=
  actions.foldl (act σ) s

/-- Every task that is there, that of the start and that of the shutdown first. -/
def strands (s : Lifespan) : List Strand :=
  s.start.toList ++ s.shutdown.toList ++ s.own

end Lifespan

end RegionSync
