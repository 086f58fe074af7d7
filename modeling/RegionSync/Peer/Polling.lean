import RegionSync.Peer.Basic

/-!
Polling by a peer: which players are asked for their positions and render tags, what an answer
changes, and what becomes of a player that does not answer.
-/

namespace RegionSync.Peer

/-- The name that polls a player: its next position, or the current one. -/
def pollName (w : Window) (r : RemotePlayer) : Except Fault Name :=
  match r.sequence with
  | none => .ok r.name.positionName
  | some s => do
    let next ← w.next s
    return r.name.positionName.child (String.ofList (Text.decimal next.toNat))

/-- The players with those polled that have no poll out, and the polls. -/
def pollAll (w : Window) (lifetime : Nat) :
    List RemotePlayer → List RemotePlayer × Except Fault (List (EntityName × Request))
  | [] => ([], .ok [])
  | r :: rs =>
    if r.polled then
      let (rs, polls) := pollAll w lifetime rs
      (r :: rs, polls)
    else
      let polled := { r with polled := true }
      match pollName w r with
      | .error fault => (polled :: rs, .error fault)
      | .ok name =>
        let (rs, polls) := pollAll w lifetime rs
        (polled :: rs, polls.map ((r.name, ⟨name, lifetime, true⟩) :: ·))

/-- The polls of all players that have none out. -/
def polls (peer : Peer) : Outcome (Except Fault (List (EntityName × Request))) :=
  let (players, polls) := pollAll peer.window peer.config.positionTimeout.toNat peer.players
  ⟨polls, { peer with players }, []⟩

/-- The number and payload of a position answer. -/
def parseAnswer (name : EntityName) (response : Response) :
    Except WireError (UInt32 × Payload) := do
  let sequence ← answerSequence name.positionName response.name
  let payload ← Payload.ofBytes response.content
  return (sequence, payload)

/-- What a position answer says, if it can be trusted and read, and the reports if not. -/
def readAnswer (σ : Scheme) (name : EntityName) (response : Response) :
    Option (UInt32 × Payload) × List Event :=
  match distrust σ response with
  | some events => (none, events)
  | none =>
    match parseAnswer name response with
    | .ok answer => (some answer, [])
    | .error e =>
      (none, [.log .warning s!"discarding position {response.name}: {e.message}"])

/-- The octree with a player moved from one leaf to a tracked one, or out of all leaves. -/
def moveName (t : Octree) (name : EntityName) (old : Option RegionPath) (leaf : RegionPath) :
    Octree × Bool :=
  let t := match old with
    | some region => t.removeName region name
    | none => t
  if t.isTracked leaf then
    match t.addName leaf name with
    | .ok t => (t, true)
    | .error _ => (t, false)
  else (t, false)

/-- Accepts a position in a leaf. A player that leaves the tracked leaves is forgotten. -/
def accept (peer : Peer) (r : RemotePlayer) (sequence : UInt32) (p : Point) (leaf : RegionPath) :
    Peer × List Event :=
  let r := { r with
    location := .known p
    sequence := some sequence
    history := r.history.record sequence p
    timeouts := 0 }
  if r.region = some leaf then (peer.setPlayer r, [.located r.name (.known p)])
  else
    let (octree, listed) := moveName peer.octree r.name r.region leaf
    let peer := { peer with octree }
    if listed then
      (peer.setPlayer { r with region := some leaf }, [.located r.name (.known p)])
    else
      (peer.forget r.name,
        [.log .info s!"{r.name} left tracked space for {leaf}", .located r.name (.known p)])

/-- Applies what an answer says about a known player. -/
def apply (peer : Peer) (r : RemotePlayer) (sequence : UInt32) (payload : Payload) :
    Outcome (Except Fault Unit) :=
  match payload with
  | .reset goal _ =>
    match peer.window.prev goal with
    | .error fault => peer.quietly (.error fault)
    | .ok s => (peer.setPlayer { r with sequence := some s, timeouts := 0 }).quietly (.ok ())
  | .position p =>
    match peer.window.isNewer r.sequence sequence with
    | .error fault => peer.quietly (.error fault)
    | .ok false => peer.quietly (.ok ())
    | .ok true =>
      match peer.geometry.leaf? p with
      | none =>
        ⟨.ok (), peer,
          [.log .warning s!"rejecting out-of-world position {p.message} for {r.name}"]⟩
      | some leaf =>
        let (peer, events) := peer.accept r sequence p leaf
        ⟨.ok (), peer, events⟩

/-- Takes a position answer for a player. Whatever it says, the player's poll is no longer out. -/
def hear (σ : Scheme) (peer : Peer) (name : EntityName) (response : Response) :
    Outcome (Except Fault Unit) :=
  let (answer, events) := readAnswer σ name response
  match peer.player? name with
  | none => ⟨.ok (), peer, events⟩
  | some r =>
    let r := { r with polled := false }
    let peer := peer.setPlayer r
    match answer with
    | none => ⟨.ok (), peer, events⟩
    | some (sequence, payload) => peer.apply r sequence payload

/-- Takes note of a poll without an answer. The next poll asks for the current position; after too
many in a row the player is dropped. -/
def miss (peer : Peer) (name : EntityName) : Outcome (Except Fault Unit) :=
  match peer.player? name with
  | none => peer.quietly (.ok ())
  | some r =>
    let r := { r with polled := false }
    match Word.add r.timeouts 1 with
    | .error fault => (peer.setPlayer r).quietly (.error fault)
    | .ok timeouts =>
      if timeouts ≤ peer.config.dropThreshold then
        (peer.setPlayer { r with timeouts, sequence := none }).quietly (.ok ())
      else
        let octree := match r.region with
          | some region => peer.octree.removeName region name
          | none => peer.octree
        { value := .ok ()
          peer := { peer.forget name with octree }
          events :=
            [.log .info s!"dropped {name} after {timeouts} timeouts", .located name .dropped] }

/-- The requests for render tags that were not asked for yet. -/
def tagRequests (peer : Peer) : Outcome (List (EntityName × Request)) :=
  let lifetime := peer.config.infoTimeout.toNat
  let asked := peer.players.filter (!·.tagRequested)
  { value := asked.map fun r => (r.name, ⟨r.name.renderName, lifetime, true⟩)
    peer := { peer with players := peer.players.map ({ · with tagRequested := true }) }
    events := [] }

/-- The reports about an answer with a render tag. -/
def hearTag (σ : Scheme) (name : EntityName) (response : Response) : List Event :=
  match distrust σ response with
  | some events => events
  | none =>
    match Text.stringOf? response.content with
    | some tag => [.tagged name tag]
    | none =>
      [.log .warning s!"discarding render info for {name}: {WireError.notUtf8.message}"]

end RegionSync.Peer
