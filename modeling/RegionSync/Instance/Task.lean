import RegionSync.Instance.Call

/-!
What an instance does over time: its loops, single passes that the host asks for, requests for
render tags, and calls. A `Task` runs from wait to wait as a call does; requests and pauses are
given up when the instance stops.
-/

namespace RegionSync

inductive Heard
  | response (r : Response)
  | silence
  | failure (e : TransportError)
  /-- The request could not be made, as a chance of loss on its way is none. -/
  | broken

/-- A request, with the player it is about if several are out at once. -/
structure Asked where
  about : Option EntityName
  request : Request

/-- Work that an instance takes on. -/
inductive Job
  | loop (loop : Loop)
  /-- Asks for a player's render tag. -/
  | tag (name : EntityName) (request : Request)

/-- When a pass began, if it is one of a loop; the host asks for single passes. -/
abbrev Pass := Option Nat

/-- A task at a wait. -/
inductive Task
  | begin (job : Job)
  /-- A discovery sweep that waits for an answer, with these targets to follow. -/
  | sweep (pass : Pass) (rest : List Discovery.Target)
  /-- A pass over the players that waits for their answers. -/
  | poll (pass : Pass) (out : List EntityName)
  /-- A loop between two passes. -/
  | pause (loop : Loop)
  /-- The publishing loop in the middle of a publication. -/
  | publish (call : Call)
  | tag (name : EntityName)
  | call (call : Call)

/-- What the host itself has an instance do. -/
def Task.isOfHost : Task → Bool
  | .call _ => true
  | .sweep none _ => true
  | .poll none _ => true
  | _ => false

/-- What a task waits for, as far as it is new. -/
inductive Wait
  /-- Only what it waits for already. -/
  | nothing
  | turn
  | call (need : Need)
  | answer (asked : Asked)
  /-- Several requests at once, each made in its own turn. -/
  | answers (asked : List Asked)
  | sleep (milliseconds : Nat)

inductive Input
  | turn
  | call (signal : Signal)
  | heard (about : Option EntityName) (heard : Heard)
  | awake
  | stop

inductive TaskResult
  | called (result : Except PeerError Unit)
  /-- A single pass, which was complete or given up. -/
  | swept (complete : Bool)
  | ended
  /-- A computation had no result. -/
  | crashed (fault : Fault)

namespace Task

inductive Progress
  | waits (task : Task) (wait : Wait)
  | done (result : TaskResult)

/-- What a run from one wait to the next leaves. -/
structure Step where
  after : Instance
  events : List Event
  begun : List Job
  progress : Progress

/-- The step with reports and jobs before its own. -/
def Step.report (events : List Event) (begun : List Job) (step : Step) : Step :=
  { step with events := events ++ step.events, begun := begun ++ step.begun }

def waitAt (i : Instance) (task : Task) (wait : Wait) : Step :=
  ⟨i, [], [], .waits task wait⟩

/-- A task of the instance's own ends. -/
def endOwn (i : Instance) : Step :=
  ⟨i.taskEnded, [], [], .done .ended⟩

/-- A pass is given up: a loop ends with it, the host is told. -/
def giveUp (i : Instance) : Pass → Step
  | some _ => endOwn i
  | none => ⟨i, [], [], .done (.swept false)⟩

/-- A pass cannot go on. -/
def crash (i : Instance) (fault : Fault) : Pass → Step
  | some _ => endOwn i
  | none => ⟨i, [], [], .done (.crashed fault)⟩

/-- A loop pauses, unless the instance stops. -/
def pauseFor (i : Instance) (loop : Loop) (milliseconds : Nat) : Step :=
  if i.stopped then endOwn i else waitAt i (.pause loop) (.sleep milliseconds)

/-- A pass is complete; a loop pauses for what is left of its interval. -/
def completePass (i : Instance) (now : Nat) (loop : Loop) : Pass → Step
  | some since => pauseFor i loop (i.interval loop - (now - since))
  | none => ⟨i, [], [], .done (.swept true)⟩

/-- Asks about the next target of a sweep. -/
def sweepNext (i : Instance) (now : Nat) (pass : Pass) : List Discovery.Target → Step
  | [] => completePass i now .discovery pass
  | target :: rest =>
    if i.stopped then giveUp i pass
    else waitAt i (.sweep pass rest) (.answer ⟨none, i.peer.discoveryRequest target⟩)

/-- Begins a sweep over the targets as they are now. -/
def beginSweep (i : Instance) (now : Nat) (pass : Pass) : Step :=
  sweepNext i now pass i.peer.sweepTargets

/-- Polls every player without a poll out. -/
def beginPoll (i : Instance) (now : Nat) (pass : Pass) : Step :=
  let o := i.peer.polls
  let i := { i with peer := o.peer }
  match o.value with
  | .error fault => crash i fault pass
  | .ok polls =>
    if i.stopped then giveUp i pass
    else if polls.isEmpty then completePass i now .polling pass
    else waitAt i (.poll pass (polls.map (·.1)))
      (.answers (polls.map fun (name, request) => ⟨some name, request⟩))

/-- The polling loop asks for new render tags before it polls. -/
def beginPollingPass (i : Instance) (now : Nat) : Step :=
  let o := i.peer.tagRequests
  let (i, jobs) := { i with peer := o.peer }.takeOn (o.value.map fun (name, r) => Job.tag name r)
  (beginPoll i now (some now)).report [] jobs

/-- What a poll of a player comes to. -/
def heardPoll (σ : Scheme) (peer : Peer) (name : EntityName) :
    Heard → Outcome (Except Fault Unit)
  | .response r => peer.hear σ name r
  | .silence => peer.miss name
  | .failure _ => peer.miss name
  | .broken => peer.quietly (.ok ())

/-- A call that is part of the publishing loop, after it ran. -/
def publishStep (step : Call.Step) : Step :=
  match step.progress with
  | .waits c => ⟨step.after, step.events, [], .waits (.publish c) (.call (c.need step.after))⟩
  | .done _ =>
    (pauseFor step.after .publishing (step.after.interval .publishing)).report step.events []

/-- A call of the host, after it ran. -/
def callStep (step : Call.Step) : Step :=
  let begun := step.loops.map Job.loop
  match step.progress with
  | .waits c => ⟨step.after, step.events, begun, .waits (.call c) (.call (c.need step.after))⟩
  | .done result => ⟨step.after, step.events, begun, .done (.called result)⟩

def beginPass (i : Instance) (now : Nat) : Loop → Step
  | .discovery => beginSweep i now (some now)
  | .polling => beginPollingPass i now
  | .publishing => publishStep i.publishOnce

/-- A job begins; the publishing loop pauses first, the position at the start being out already. -/
def beginJob (i : Instance) (now : Nat) : Job → Step
  | .loop .publishing => pauseFor i .publishing (i.interval .publishing)
  | .loop loop => beginPass i now loop
  | .tag name request =>
    if i.stopped then endOwn i else waitAt i (.tag name) (.answer ⟨none, request⟩)

/-- Runs a task on from its wait. -/
def resume (σ : Scheme) (i : Instance) (now : Nat) : Task → Input → Step
  | .begin job, .turn => beginJob i now job
  | .sweep pass rest, .heard _ (.response r) =>
    let o := i.peer.learn σ r
    (sweepNext { i with peer := o.peer } now pass rest).report o.events []
  | .sweep pass _, .heard _ .broken => crash i .badChance pass
  | .sweep pass rest, .heard _ _ => sweepNext i now pass rest
  | .sweep pass _, .stop => giveUp i pass
  | .poll pass out, .heard (some name) heard =>
    let o := heardPoll σ i.peer name heard
    let i := { i with peer := o.peer }
    let out := out.erase name
    let next := match o.value with
      | .error fault => crash i fault pass
      | .ok () =>
        if out.isEmpty then completePass i now .polling pass else waitAt i (.poll pass out) .nothing
    next.report o.events []
  | .poll pass _, .stop => giveUp i pass
  | .pause loop, .awake => beginPass i now loop
  | .pause _, .stop => endOwn i
  | .publish c, .call signal => publishStep (c.resume i signal)
  | .tag name, .heard _ (.response r) => (endOwn i).report (Peer.hearTag σ name r) []
  | .tag _, .heard _ _ => endOwn i
  | .tag _, .stop => endOwn i
  | .call c, .call signal => callStep (c.resume i signal)
  | task, _ => waitAt i task .nothing

end Task

end RegionSync
