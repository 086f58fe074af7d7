import RegionSync.Simulation.Host
import RegionSync.Simulation.Seeds
import RegionSync.World.Record
import RegionSync.World.Truth

/-!
A simulated world: avatars that walk, a peer for each of them on one network, and the comparison of
what the peers believe with the truth.
-/

namespace RegionSync

structure Setup where
  seed : UInt64 := 42
  /-- How many peers are spawned at a time. -/
  peers : Nat := 6
  /-- How often in a second the avatars move; zero counts as one. -/
  rate : UInt32 := 10
  /-- How fast avatars walk. -/
  speed : Single := .ofNat 4
  /-- The chance of loss on every link. -/
  loss : Double := .zero
  /-- How far from the truth a position may be and still count. -/
  tolerance : Single := .ofNat 25
  /-- The settings of every peer. -/
  config : Config := {}

/-- A peer of a world: its number, its node and its seat in the simulation. -/
structure Member where
  number : Nat
  node : NodeId
  seat : Nat

structure World where
  setup : Setup
  truth : Truth
  simulation : Simulation
  /-- The peers by their numbers; those that were stopped are gone. -/
  members : List (Option Member)

/-- How many players are seen by whom. -/
structure Visibility where
  /-- Pairs of an observer and a player in a leaf that the observer tracks. -/
  expected : Nat
  /-- Pairs of them where the observer's position is near the truth. -/
  accurate : Nat
  deriving DecidableEq, Repr

def Visibility.converged (v : Visibility) : Bool :=
  v.expected == v.accurate

namespace World

/-- Nobody forges in a simulated world. -/
def scheme : Scheme := .sealing

def make (timer : Timer) (setup : Setup) : Except ConfigError World := do
  let geometry ← setup.config.geometry
  let truth := (Truth.ofSeed geometry (Simulation.movementSeed setup.seed)).setSpeed setup.speed
  let conditions := Network.Conditions.ofSeed (Simulation.lossSeed setup.seed)
  return ⟨setup, truth, .ofHub timer (.empty (conditions.setDefaultLoss setup.loss)), []⟩

def live (w : World) : List Member :=
  w.members.filterMap id

def member? (w : World) (number : Nat) : Option Member :=
  w.members[number]?.join

def peer? (w : World) (m : Member) : Option Peer :=
  (w.simulation.instance? m.seat).map (·.peer)

def record (w : World) (m : Member) : Record :=
  .ofEvents ((w.simulation.log.reverse.filter (·.2.1 == m.seat)).map (·.2.2))

/-- Spawns one more peer and its avatar in a leaf. -/
def spawnOne (w : World) (leaf : RegionPath) : Except Fault (Except PeerError Member) × World :=
  let number := w.members.length
  match w.truth.spawnIn number leaf (w.truth.geometry.leafSize.div (.ofNat 4)) with
  | .error fault => (.error fault, w)
  | .ok (none, _) => (.ok (.error (.region (.invalidPath leaf.text))), w)
  | .ok (some position, truth) =>
    let w := { w with truth }
    let secret := Simulation.secretOf w.setup.seed (.ofNat number)
    match Peer.make w.setup.config s!"p{number}" position secret with
    | .error fault => (.error fault, w)
    | .ok (.error e) => (.ok (.error e), w)
    | .ok (.ok peer) =>
      let node := NodeId.ofSeed (.ofNat number)
      let (seat, simulation) := w.simulation.seat node (.ofPeer peer)
      let (started, simulation) := simulation.call scheme seat Instance.start
      match started with
      | .error e => (.ok (.error e), { w with simulation })
      | .ok () =>
        let m : Member := ⟨number, node, seat⟩
        (.ok (.ok m), { w with simulation, members := w.members ++ [some m] })

/-- Spawns peers in a leaf one after the other, up to the first that fails. -/
def spawnMany (w : World) (leaf : RegionPath) :
    Nat → Except Fault (Except PeerError (List Member)) × World
  | 0 => (.ok (.ok []), w)
  | n + 1 =>
    match w.spawnOne leaf with
    | (.error fault, w) => (.error fault, w)
    | (.ok (.error e), w) => (.ok (.error e), w)
    | (.ok (.ok m), w) =>
      match spawnMany w leaf n with
      | (.ok (.ok ms), w) => (.ok (.ok (m :: ms)), w)
      | failed => failed

/-- Spawns as many peers as the setup says. -/
def spawn (w : World) (leaf : RegionPath) : Except Fault (Except PeerError (List Member)) × World :=
  w.spawnMany leaf w.setup.peers

/-- Nanoseconds from one move of the avatars to the next. -/
def tick (w : World) : Nat :=
  ((Binary.ofNat 1 : Double).div (.ofNat (max w.setup.rate.toNat 1))).scaledNat (10 ^ 9)

def seconds (nanoseconds : Nat) : Double :=
  (Binary.ofNat (nanoseconds / 10 ^ 9)).add
    ((Binary.ofNat (nanoseconds % 10 ^ 9)).div (.ofNat (10 ^ 9)))

/-- Tells a peer where its avatar is. -/
def inform (truth : Truth) (s : Simulation) (m : Member) : Simulation :=
  match truth.position? m.number with
  | none => s
  | some p => (s.move m.seat p).toOption.getD s

/-- Lets one tick pass, then moves the avatars and tells the peers. -/
def tickOnce (w : World) : World :=
  let simulation := w.simulation.sleep scheme ((w.tick + 999999) / 1000000)
  let truth := w.truth.step (seconds w.tick)
  { w with truth, simulation := w.live.foldl (inform truth) simulation }

/-- Ticks until the time is over, at most so often. -/
def runUntil (nanoseconds : Nat) : Nat → World → World
  | 0, w => w
  | fuel + 1, w =>
    if w.simulation.now * 1000000 < nanoseconds then runUntil nanoseconds fuel w.tickOnce else w

/-- Clocks count seconds up to this bound. -/
def lastSecond : Nat := 2 ^ 63

/-- Lets time pass while the avatars walk; the last tick may end later. A tick takes a millisecond
or more, which bounds how many there are. The end has to be a time that clocks can show. -/
def run (w : World) (nanoseconds : Nat) : Except Fault World :=
  let goal := w.simulation.now * 1000000 + nanoseconds
  if lastSecond * 10 ^ 9 ≤ goal then .error .overflow
  else .ok (runUntil goal (nanoseconds / 1000000 + 1) w)

/-- Stops a peer and removes its avatar. -/
def stop (w : World) (number : Nat) : World :=
  match w.member? number with
  | none => w
  | some m =>
    { w with
      simulation := (w.simulation.call scheme m.seat Instance.shutdown).2
      truth := w.truth.remove number
      members := w.members.set number none }

def shutdown (w : World) : World :=
  (List.range w.members.length).foldl stop w

/-- The players whose position a peer knows. -/
def positions (p : Peer) : List (EntityName × Point) :=
  p.players.filterMap fun r => r.location.position?.map fun q => (r.name, q)

/-- A position is near enough to the truth. -/
def isNear (w : World) (truth seen : Point) : Bool :=
  (seen.sub truth).length.le w.setup.tolerance

/-- Counts a pair, if the observer should see the subject. Where there are peers, every position has
a leaf. -/
def countPair (w : World) (observer : Peer) (v : Visibility) (subject : Member) : Visibility :=
  match w.truth.position? subject.number, w.truth.leafOf subject.number, w.peer? subject with
  | some truth, .ok (some leaf), some peer =>
    if observer.tracked.contains leaf then
      let near := ((positions observer).lookup peer.self.name).any (w.isNear truth)
      ⟨v.expected + 1, v.accurate + near.toNat⟩
    else v
  | _, _, _ => v

/-- Compares what every peer knows with the truth. -/
def visibility (w : World) : Visibility :=
  w.live.foldl (fun v m =>
    match w.peer? m with
    | none => v
    | some observer =>
      (w.live.filter (·.number != m.number)).foldl (w.countPair observer) v) ⟨0, 0⟩

end World

end RegionSync
