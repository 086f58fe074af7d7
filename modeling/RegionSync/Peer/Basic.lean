import RegionSync.Discovery.Exchange
import RegionSync.Peer.Event
import RegionSync.Position.Poll

/-!
The state of a peer: its own player, the players it knows, the octree with their names, the leaves
it tracks in the order of its sweeps, and its discovery subscriptions. Operations are functions from
a state to an outcome, which holds the new state and the reports to the host.
-/

namespace RegionSync

structure LocalPlayer where
  name : EntityName
  position : Point
  /-- The number of the last publication. -/
  sequence : Option UInt32
  history : History
  /-- The leaf that lists the player. -/
  region : RegionPath
  renderTag : String

structure RemotePlayer where
  name : EntityName
  location : Location
  /-- The last number accepted; without one the next poll asks for the current position. -/
  sequence : Option UInt32
  /-- Polls in a row without an answer. -/
  timeouts : UInt32
  history : History
  /-- The leaf that lists the player. -/
  region : Option RegionPath
  /-- A poll is out. -/
  polled : Bool
  /-- The render tag was asked for. -/
  tagRequested : Bool

/-- A player just discovered in a leaf. -/
def RemotePlayer.discovered (name : EntityName) (region : RegionPath) (window : UInt32) :
    RemotePlayer where
  name := name
  location := .discovered
  sequence := none
  timeouts := 0
  history := .empty window
  region := some region
  polled := false
  tagRequested := false

structure Peer where
  config : Config
  geometry : Geometry
  /-- Name under which discovery requests stand. -/
  broadcast : Name
  secret : Bytes
  self : LocalPlayer
  /-- The players known, under different names. -/
  players : List RemotePlayer
  octree : Octree
  /-- The tracked leaves in the order in which they are swept. -/
  tracked : List RegionPath
  /-- The discovery registrations by the region they answer for. -/
  subscriptions : List (RegionPath × RegistrationId)

/-- What an operation gives: a value, the state after it, and the reports made. -/
structure Outcome (α : Type) where
  value : α
  peer : Peer
  events : List Event

namespace Peer

/-- A peer whose player is listed in the leaf of its position. -/
def make (config : Config) (id : String) (position : Point) (secret : Bytes) :
    Except Fault (Except PeerError Peer) :=
  let checked : Except PeerError (Geometry × Name × EntityName) := do
    config.validate.mapError .config
    let geometry ← config.geometry.mapError .config
    let broadcast ← config.broadcastName.mapError .config
    let name ← (EntityName.make config.hub id).mapError .wire
    return (geometry, broadcast, name)
  match checked with
  | .error e => .ok (.error e)
  | .ok (geometry, broadcast, name) =>
    match geometry.leafAt position with
    | .error fault => .error fault
    | .ok (.error e) => .ok (.error (.region e))
    | .ok (.ok region) =>
      match (Octree.empty geometry).addName region name with
      | .error e => .ok (.error (.region e))
      | .ok octree => .ok (.ok {
          config, geometry, broadcast, secret, octree
          self := ⟨name, position, none, .empty config.windowSize, region, config.renderTag⟩
          players := []
          tracked := []
          subscriptions := [] })

def window (peer : Peer) : Window := peer.config.window

/-- The player of this name, if it is known. -/
def player? (peer : Peer) (name : EntityName) : Option RemotePlayer :=
  peer.players.find? (·.name == name)

/-- The peer with a known player's entry changed. -/
def setPlayer (peer : Peer) (r : RemotePlayer) : Peer :=
  { peer with players := peer.players.map fun q => if q.name = r.name then r else q }

/-- The peer without a player's entry. -/
def forget (peer : Peer) (name : EntityName) : Peer :=
  { peer with players := peer.players.filter (·.name != name) }

def quietly {α : Type} (peer : Peer) (value : α) : Outcome α := ⟨value, peer, []⟩

/-- The answer under a name, signed; a failure is reported. -/
def signed (σ : Scheme) (peer : Peer) (name : Name) (content : Bytes) (freshness : Nat)
    (timestamp : UInt64) : Option Response × List Event :=
  match σ.respond peer.secret name content freshness timestamp with
  | .ok r => (some r, [])
  | .error e => (none, [.log .error s!"signing {name} failed: {e.message}"])

/-- The reports about an answer's signature: none if it verifies. -/
def distrust (σ : Scheme) (r : Response) : Option (List Event) :=
  match σ.check r with
  | .ok () => none
  | .error e => some [.log .warning s!"dropping response {r.name}: {e.message}"]

def namesIn (peer : Peer) (region : RegionPath) : List EntityName :=
  ((peer.octree.namesIn? region).map (·.names)).getD []

end Peer

end RegionSync
