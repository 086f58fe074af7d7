import RegionSync.Peer.Discovery
import RegionSync.Peer.Polling
import RegionSync.Peer.Publishing
import RegionSync.Peer.Tracking

/-!
An instance: a peer with what it needs to run on a transport. Its host calls it and loops of its own
act for it; both stop at waits, for the transport or for each other, and between two waits nothing
else happens.
-/

namespace RegionSync

/-- Who answers requests under a name that an instance has registered. -/
inductive Handler
  /-- The player: positions and the render tag. -/
  | player
  /-- The tracker of regions: who is in them. -/
  | discovery
  deriving DecidableEq, Repr

inductive Loop
  /-- Sweeps the tracked leaves. -/
  | discovery
  /-- Polls the known players. -/
  | polling
  /-- Publishes the own position. -/
  | publishing
  deriving DecidableEq, Repr

structure Instance where
  peer : Peer
  /-- A start succeeded or is on its way. -/
  started : Bool
  /-- The instance is shut down, or about to be. -/
  stopped : Bool
  /-- A call holds the lock under which tracking changes. -/
  locked : Bool
  /-- The registration of the player's name. -/
  registration : Option RegistrationId
  /-- How many tasks of its own have not ended. -/
  tasks : Nat

namespace Instance

/-- An instance of a peer that nothing has been asked of. -/
def ofPeer (peer : Peer) : Instance :=
  ⟨peer, false, false, false, none, 0⟩

def isRunning (i : Instance) : Bool :=
  i.started && !i.stopped

/-- The instance with tasks to do, unless it is shut down. -/
def takeOn {α : Type} (i : Instance) (jobs : List α) : Instance × List α :=
  if i.stopped then (i, []) else ({ i with tasks := i.tasks + jobs.length }, jobs)

/-- The instance after one of its tasks ended. -/
def taskEnded (i : Instance) : Instance :=
  { i with tasks := i.tasks - 1 }

/-- Milliseconds that a loop pauses, or takes for a pass where a pass takes time itself. -/
def interval (i : Instance) : Loop → Nat
  | .discovery => i.peer.config.broadcastInterval.toNat
  | .polling => i.peer.config.positionInterval.toNat
  | .publishing => i.peer.config.positionInterval.toNat

end Instance

end RegionSync
