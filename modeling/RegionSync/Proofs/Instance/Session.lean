import RegionSync.Instance.Call
import RegionSync.Proofs.Peer.Tracking

/-!
Calls on one instance, side by side. A host makes any number of them; each runs from wait to wait,
the lock goes to one that waits for it when it is free, and the transport answers when it likes. In
between the peer does whatever else it does.
-/

namespace RegionSync

/-- A name that is registered at the transport. -/
structure Registration where
  id : RegistrationId
  name : Name
  handler : Handler
  deriving DecidableEq

/-- The registrations that the subscriptions of a peer stand for. -/
def Peer.registrations (peer : Peer) : List Registration :=
  peer.subscriptions.map fun (region, id) => ⟨id, peer.regionName region, .discovery⟩

/-- What the transport does for a call. A registration gets a number that no other one has, or
fails; one that stands can be taken back. -/
def Registration.serve (live : List Registration) :
    Need → Except TransportError RegistrationId → Option (Signal × List Registration)
  | .registration name handler, .ok id =>
    if live.any (·.id == id) then none
    else some (.registered (.ok id), live ++ [⟨id, name, handler⟩])
  | .registration _ _, .error e => some (.registered (.error e), live)
  | .removal id, reply =>
    if live.any (·.id == id) then some (.removed (.ok ()), live.filter (·.id != id))
    else match reply with
      | .ok _ => none
      | .error e => some (.removed (.error e), live)
  | .lock, _ => none
  | .quiet, _ => none

/-- What a host asks of an instance that runs. -/
inductive Demand
  | track (leaf : RegionPath)
  | untrack (leaf : RegionPath)
  | publish

def Demand.first (i : Instance) : Demand → Call.Step
  | track leaf => i.track leaf
  | untrack leaf => i.untrack leaf
  | publish => i.publishOnce

/-- How far a call has come. -/
inductive Slot
  | waits (call : Call)
  /-- What the call waits for has happened, but it did not run on yet. -/
  | heard (call : Call) (signal : Signal)
  | done (result : Except PeerError Unit)

/-- What can happen to a call. -/
inductive Turn
  /-- The lock, which is free, goes to the call. -/
  | grant
  /-- The transport does what the call waits for, or refuses. -/
  | answer (reply : Except TransportError RegistrationId)
  | resume

namespace Slot

def ofProgress : Call.Progress → Slot
  | .waits call => .waits call
  | .done result => .done result

/-- The instance, the registrations and the call after a turn, if the turn is possible. -/
def next (i : Instance) (live : List Registration) :
    Slot → Turn → Option (Instance × List Registration × Slot)
  | waits call, .grant =>
    if call.need i = .lock ∧ i.locked = false then
      some ((call.resume i .locked).after, live, ofProgress (call.resume i .locked).progress)
    else none
  | waits call, .answer reply =>
    (Registration.serve live (call.need i) reply).map fun (signal, live) =>
      (i, live, heard call signal)
  | heard call signal, .resume =>
    some ((call.resume i signal).after, live, ofProgress (call.resume i signal).progress)
  | _, _ => none

/-- The call holds the lock. -/
def holds : Slot → Bool
  | waits (.subscribe ..) => true
  | waits (.unsubscribe _) => true
  | heard (.subscribe ..) _ => true
  | heard (.unsubscribe _) _ => true
  | _ => false

/-- The call has failed, or can still fail. -/
def fails : Slot → Bool
  | waits (.track _ purpose) => purpose = .host
  | waits (.subscribe _ purpose) => purpose = .host
  | heard (.subscribe _ purpose) (.registered (.error _)) => purpose = .host
  | done (.error _) => true
  | _ => false

end Slot

/-- What can happen next. -/
inductive Action
  | demand (demand : Demand)
  | turn (k : Nat) (turn : Turn)
  /-- The peer does something that has nothing to do with tracking. -/
  | other (operation : Peer.Operation)

structure Session where
  running : Instance
  /-- The registrations for discovery at the transport. -/
  live : List Registration
  /-- The calls in the order in which they were made. -/
  calls : List Slot

namespace Session

def ofPeer (peer : Peer) : Session :=
  ⟨.ofPeer peer, [], []⟩

/-- The session after an action; one that is not possible changes nothing. -/
def act (σ : Scheme) (s : Session) : Action → Session
  | .demand demand =>
    let step := demand.first s.running
    { s with running := step.after, calls := s.calls ++ [.ofProgress step.progress] }
  | .turn k turn =>
    match s.calls[k]?.bind (·.next s.running s.live turn) with
    | some (running, live, slot) => ⟨running, live, s.calls.set k slot⟩
    | none => s
  | .other operation =>
    if operation.retracks then s
    else { s with running := { s.running with peer := (s.running.peer.step σ operation).1 } }

def run (σ : Scheme) (s : Session) (actions : List Action) : Session :=
  actions.foldl (act σ) s

theorem run_cons (σ : Scheme) (s : Session) (action : Action) (actions : List Action) :
    s.run σ (action :: actions) = (s.act σ action).run σ actions := rfl

theorem run_append (σ : Scheme) (s : Session) (before after : List Action) :
    s.run σ (before ++ after) = (s.run σ before).run σ after :=
  List.foldl_append

/-- The call whose action it is. -/
def caller? (s : Session) : Action → Option Nat
  | .demand _ => some s.calls.length
  | .turn k _ => some k
  | .other _ => none

end Session

end RegionSync
