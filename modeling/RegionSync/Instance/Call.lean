import RegionSync.Instance.Basic

/-!
Calls on an instance, as machines that run from wait to wait. A `Call` is a call at a wait, `need`
says what it waits for, and `resume` runs it to the next wait or to its end. Tracking changes under
a lock, so that one subscription is registered once.
-/

namespace RegionSync

/-- Why a leaf is to be tracked. -/
inductive Purpose
  | host
  /-- The player starts in it. -/
  | start
  /-- The player came into it; if it cannot be tracked, so be it. -/
  | publication
  deriving DecidableEq, Repr

/-- A call at a wait. -/
inductive Call
  /-- A leaf is to be tracked; waits for the lock. -/
  | track (leaf : RegionPath) (purpose : Purpose)
  /-- Holds the lock and waits for the subscription that the leaf needs. -/
  | subscribe (leaf : RegionPath) (purpose : Purpose)
  /-- A leaf is no longer to be tracked; waits for the lock. -/
  | untrack (leaf : RegionPath)
  /-- Holds the lock and waits for a subscription to be taken back. -/
  | unsubscribe (id : RegistrationId)
  /-- A start that waits for the registration of the player's name. -/
  | announce
  /-- A start that failed and waits for that registration to be taken back. -/
  | withdraw (id : RegistrationId) (reason : PeerError)
  /-- A shutdown that waits for the tasks to end. -/
  | stop
  /-- A shutdown that waits for a subscription to be taken back, with others to follow. -/
  | clear (id : RegistrationId) (rest : List RegistrationId)
  /-- A shutdown that waits for the registration of the player's name to be taken back. -/
  | retire (id : RegistrationId)
  deriving DecidableEq

inductive Need
  | lock
  | registration (name : Name) (handler : Handler)
  | removal (id : RegistrationId)
  /-- The end of all tasks. -/
  | quiet
  deriving DecidableEq

inductive Signal
  | locked
  | registered (result : Except TransportError RegistrationId)
  | removed (result : Except TransportError Unit)
  | quiet

namespace Call

def need (i : Instance) : Call → Need
  | track .. => .lock
  | untrack _ => .lock
  | subscribe leaf _ =>
    .registration (i.peer.regionName (i.peer.subscriptionFor leaf)) .discovery
  | announce => .registration i.peer.self.name.playerName .player
  | unsubscribe id => .removal id
  | withdraw id _ => .removal id
  | clear id _ => .removal id
  | retire id => .removal id
  | stop => .quiet

/-- Where a call is after it ran. -/
inductive Progress
  | waits (call : Call)
  | done (result : Except PeerError Unit)

/-- What a run from one wait to the next leaves. -/
structure Step where
  after : Instance
  events : List Event
  loops : List Loop
  progress : Progress

/-- The call comes to a wait. -/
def waitAt (i : Instance) (call : Call) : Step :=
  ⟨i, [], [], .waits call⟩

def endWith (i : Instance) (result : Except PeerError Unit) : Step :=
  ⟨i, [], [], .done result⟩

/-- The step with reports before its own. -/
def Step.report (events : List Event) (step : Step) : Step :=
  { step with events := events ++ step.events }

/-- A start that succeeded begins the loops. -/
def finishStart (i : Instance) (leaf : RegionPath) : Step :=
  let (after, loops) := i.takeOn [.discovery, .polling, .publishing]
  ⟨after, [.log .info s!"{i.peer.self.name} started at {leaf}"], loops, .done (.ok ())⟩

/-- A start that failed takes back the registration of the player's name; it can be tried again. -/
def failStart (i : Instance) (reason : PeerError) : Step :=
  match i.registration with
  | some id => waitAt { i with registration := none } (.withdraw id reason)
  | none => endWith { i with started := false } (.error reason)

/-- What follows once a leaf is tracked or cannot be. -/
def trackEnded (i : Instance) (leaf : RegionPath) (purpose : Purpose)
    (result : Except PeerError Unit) : Step :=
  match purpose, result with
  | .host, result => endWith i result
  | .publication, _ => endWith i (.ok ())
  | .start, .ok () => finishStart i leaf
  | .start, .error reason => failStart i reason

/-- Tracks a leaf, first of all if it is one. -/
def beginTrack (i : Instance) (leaf : RegionPath) (purpose : Purpose) : Step :=
  if i.peer.octree.isLeaf leaf then waitAt i (.track leaf purpose)
  else trackEnded i leaf purpose (.error (.region (.invalidPath s!"{leaf} is not a leaf")))

/-- Marks a leaf, whose subscription stands, and gives the lock back. -/
def markTracked (i : Instance) (leaf : RegionPath) (purpose : Purpose) : Step :=
  match i.peer.track leaf with
  | .ok peer => trackEnded { i with peer, locked := false } leaf purpose (.ok ())
  | .error e => trackEnded { i with locked := false } leaf purpose (.error (.region e))

/-- Takes back subscriptions one by one, and last the registration of the player's name. -/
def clearNext (i : Instance) : List RegistrationId → Step
  | id :: rest => waitAt i (.clear id rest)
  | [] =>
    match i.registration with
    | some id => waitAt { i with registration := none } (.retire id)
    | none => endWith i (.ok ())

/-- The instance after a publication, and the leaf that is to be tracked because of it. Numbers of
publications stay in the window, so there is always a next one. -/
def published (i : Instance) : Instance × Option RegionPath :=
  let o := i.peer.publish
  ({ i with peer := o.peer }, o.value.toOption.join)

/-- Runs a call on from its wait. -/
def resume (i : Instance) : Call → Signal → Step
  | .track leaf purpose, .locked =>
    if i.peer.isTracked leaf then trackEnded i leaf purpose (.ok ())
    else if i.peer.hasSubscription (i.peer.subscriptionFor leaf) then markTracked i leaf purpose
    else waitAt { i with locked := true } (.subscribe leaf purpose)
  | .subscribe leaf purpose, .registered (.ok id) =>
    markTracked { i with peer := i.peer.subscribe (i.peer.subscriptionFor leaf) id } leaf purpose
  | .subscribe leaf purpose, .registered (.error e) =>
    let name := i.peer.regionName (i.peer.subscriptionFor leaf)
    (trackEnded { i with locked := false } leaf purpose (.error (.transport e))).report
      [.log .error s!"cannot subscribe {name} for {leaf}: {e.message}"]
  | .untrack leaf, .locked =>
    let (peer, untracked) := i.peer.untrack leaf
    match untracked.released with
    | some (_, id) => waitAt { i with peer, locked := true } (.unsubscribe id)
    | none => endWith { i with peer } (.ok ())
  | .unsubscribe _, .removed result =>
    endWith { i with locked := false } (result.mapError .transport)
  | .announce, .registered (.ok id) =>
    let (i, _) := published { i with registration := some id }
    beginTrack i i.peer.self.region .start
  | .announce, .registered (.error e) => failStart i (.transport e)
  | .withdraw _ reason, .removed _ => endWith { i with started := false } (.error reason)
  | .stop, .quiet =>
    let (peer, subscriptions) := i.peer.releaseAll
    clearNext { i with peer } (subscriptions.map (·.2))
  | .clear _ rest, .removed _ => clearNext i rest
  | .retire _, .removed _ => endWith i (.ok ())
  | call, _ => waitAt i call

end Call

namespace Instance

open Call

/-- Registers the player's name, publishes the first position, tracks the player's leaf and begins
the loops. -/
def start (i : Instance) : Step :=
  if i.started then endWith i (.error .alreadyStarted)
  else waitAt { i with started := true } .announce

/-- Ends every loop and takes back every registration. -/
def shutdown (i : Instance) : Step :=
  waitAt { i with stopped := true } .stop

/-- Begins to answer about a leaf and to sweep it. -/
def track (i : Instance) (leaf : RegionPath) : Step :=
  beginTrack i leaf .host

/-- Forgets a leaf and the players in it. -/
def untrack (i : Instance) (leaf : RegionPath) : Step :=
  waitAt i (.untrack leaf)

/-- Publishes the position, and tracks the leaf that the player came into. -/
def publishOnce (i : Instance) : Step :=
  match published i with
  | (i, some leaf) => beginTrack i leaf .publication
  | (i, none) => endWith i (.ok ())

end Instance

end RegionSync
