import RegionSync.Peer.Basic

/-!
The peer's own player: it moves, publishes its position under the next number, and answers polls and
requests for its render tag.
-/

namespace RegionSync.Peer

/-- The player moved; a position outside the world is refused. -/
def moveTo (peer : Peer) (position : Point) : Except RegionError Peer :=
  if peer.geometry.inWorld position then
    .ok { peer with self := { peer.self with position } }
  else .error (.outOfWorld position)

def nextSequence (peer : Peer) : Except Fault UInt32 :=
  match peer.self.sequence with
  | none => .ok 0
  | some s => peer.window.next s

/-- The player's name moved to another region; one that is not a leaf does not take it, and then it is
listed nowhere. -/
def relist (peer : Peer) (leaf : RegionPath) : Bool × Peer :=
  let name := peer.self.name
  let octree := peer.octree.removeName peer.self.region name
  match octree.addName leaf name with
  | .ok octree => (true, { peer with octree, self := { peer.self with region := leaf } })
  | .error _ => (false, { peer with octree })

/-- Publishes the position under the next number and lists the player in its leaf. The value is the
leaf if the player came into one that is not tracked. -/
def publish (peer : Peer) : Outcome (Except Fault (Option RegionPath)) :=
  match peer.nextSequence with
  | .error fault => peer.quietly (.error fault)
  | .ok sequence =>
    let position := peer.self.position
    let peer := { peer with
      self := { peer.self with
        sequence := some sequence
        history := peer.self.history.record sequence position } }
    match peer.geometry.leaf? position with
    | none => peer.quietly (.ok none)
    | some leaf =>
      if leaf = peer.self.region then peer.quietly (.ok none)
      else
        let (moved, peer) := peer.relist leaf
        peer.quietly (.ok (if moved && !peer.octree.isTracked leaf then some leaf else none))

/-- The reply to a poll for a number. -/
def replyTo (peer : Peer) (requested : Option UInt32) : Except Fault Reply :=
  Reply.to peer.window peer.self.sequence peer.self.history requested

/-- The signed answer of this number. -/
def signPosition (σ : Scheme) (peer : Peer) (sequence : UInt32) (payload : Payload)
    (timestamp : UInt64) : Option Response × List Event :=
  let name := peer.self.name.positionName.child (String.ofList (Text.decimal sequence.toNat))
  peer.signed σ name payload.bytes peer.config.positionFreshness.toNat timestamp

/-- The signed render tag, under the name it was asked for. -/
def signTag (σ : Scheme) (peer : Peer) (name : Name) (timestamp : UInt64) :
    Option Response × List Event :=
  peer.signed σ name (Text.bytesOf peer.self.renderTag) peer.config.digestFreshnessMs timestamp

/-- What comes of a request to the player. -/
inductive PlayerReply
  /-- An answer, or none if signing failed. -/
  | answered (response : Option Response)
  /-- The number asked for is not produced yet. -/
  | wait
  | silent

/-- Answers a request under the player's name. -/
def answerPlayer (σ : Scheme) (peer : Peer) (name : Name) (timestamp : UInt64) :
    Except WireError (Except Fault (PlayerReply × List Event)) := do
  match ← Ask.ofName peer.self.name.playerName name with
  | .renderTag =>
    let (response, events) := peer.signTag σ name timestamp
    return .ok (.answered response, events)
  | .position requested =>
    match peer.replyTo requested with
    | .error fault => return .error fault
    | .ok .wait => return .ok (.wait, [])
    | .ok .silent => return .ok (.silent, [])
    | .ok (.answer sequence payload) =>
      let (response, events) := peer.signPosition σ sequence payload timestamp
      return .ok (.answered response, events)

end RegionSync.Peer
