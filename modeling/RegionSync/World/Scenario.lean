import RegionSync.World.Basic

/-!
Scenarios: what happens to a world, and what has to hold at its end. Each runs on a fresh world and
ends with the first failure that it finds, or with none.
-/

namespace RegionSync

inductive Scenario
  | convergence
  | crossing
  | dropout
  | splitBrain
  | lossyLink
  deriving DecidableEq, Repr

namespace Scenario

def all : List Scenario :=
  [convergence, crossing, dropout, splitBrain, lossyLink]

def name : Scenario → String
  | convergence => "convergence"
  | crossing => "crossing"
  | dropout => "dropout"
  | splitBrain => "split_brain"
  | lossyLink => "lossy_link"

def description : Scenario → String
  | convergence => "all peers in one leaf, every peer ends with every other's position"
  | crossing =>
    "one avatar jumps to an untracked leaf, observers evict it, a follower rediscovers it"
  | dropout => "one peer shuts down, the rest drop it after the timeout threshold"
  | splitBrain => "partition two halves for 8s, heal, verify full visibility returns"
  | lossyLink => "20% loss on every link, verify positions still converge without drops"

/-- The letter that a character of a name stands for: case does not count, and neither does which
kind of dash is used. The Kelvin sign is a capital `k`. -/
def fold (c : Char) : Char :=
  if c = '-' then '_' else if c.toNat = 0x212A then 'k' else c.toLower

/-- The scenario of a name, which may leave out the dash. -/
def ofName? (s : String) : Option Scenario :=
  let folded := s.toList.map fold
  all.find? fun scenario =>
    let name := scenario.name.toList
    folded == name || folded == name.filter (· != '_')

/-- The message about a name that no scenario has. -/
def unknownMessage (s : String) : String :=
  s!"Unknown scenario: {s}"

end Scenario

inductive Failure
  /-- The players are not all in one leaf. -/
  | scattered (expected found : Nat)
  /-- Some positions are unknown or far from the truth. -/
  | inaccurate (v : Visibility)
  /-- A peer dropped players. -/
  | dropped (observer : EntityName) (players : List EntityName)
  /-- There is no such leaf to go to. -/
  | noLeaf (leaf : RegionPath)
  | missingPeers
  /-- The player that moved does not track its leaf. -/
  | untracked (player : EntityName) (leaf : RegionPath)
  /-- A peer holds a position for a player that is gone. -/
  | lingering (observer player : EntityName)
  /-- The player that followed did not see the one that moved. -/
  | unseen (follower player : EntityName) (leaf : RegionPath)
  /-- A peer did not drop a player that is gone. -/
  | kept (observer player : EntityName)
  /-- There is no world with this setup. -/
  | noWorld (e : ConfigError)
  | peer (e : PeerError)

namespace Failure

/-- A name with its parts told apart. -/
def quotedName (e : EntityName) : String :=
  s!"EntityName \x7b owner: {Text.quoted e.owner}, id: {Text.quoted e.id} \x7d"

def message : Failure → String
  | scattered expected found => s!"expected {expected} pairs in one leaf, found {found}"
  | inaccurate v => s!"only {v.accurate}/{v.expected} peer pairs have an accurate position"
  | dropped observer players =>
    let names := ", ".intercalate (players.map quotedName)
    s!"{observer} dropped [{names}]"
  | noLeaf leaf => s!"invalid leaf {leaf}"
  | missingPeers => "missing peers"
  | untracked player leaf => s!"{player} does not track {leaf}"
  | lingering observer player => s!"{observer} still holds a position for {player}"
  | unseen follower player leaf => s!"{follower} did not rediscover {player} in {leaf}"
  | kept observer player => s!"{observer} never dropped {player}"
  | noWorld e => s!"cannot build world: {e.message?.getD default}"
  | peer e => s!"peer error: {e.message}"

end Failure

/-- A scenario and how it is to be run. -/
structure Trial where
  scenario : Scenario
  seed : UInt64
  peers : Nat
  /-- Seconds of the main phase. -/
  duration : Double

structure Verdict where
  trial : Trial
  failure : Option Failure
  time : Double
  traffic : Network.Traffic
  visibility : Visibility
  /-- How many drops the peers at the end have reported. -/
  drops : Nat

def Verdict.passed (v : Verdict) : Bool :=
  v.failure.isNone

namespace Trial

/-- A trial has two peers and a second at least. -/
def make (scenario : Scenario) (seed : UInt64) (peers : Nat) (duration : Double) : Trial :=
  ⟨scenario, seed, max peers 2, duration.max (.ofNat 1)⟩

/-- The leaf in which everybody starts. -/
def home : RegionPath := ⟨[2, 4, 1, 0, 6, 3, 1]⟩

def away : RegionPath := ⟨[5, 1, 1, 1, 1, 1, 1]⟩

def setup (t : Trial) : Setup where
  seed := t.seed
  peers := t.peers
  loss := if t.scenario = .lossyLink then .ofRatio false 1 5 else .zero

def nanoseconds (seconds : Nat) : Nat := seconds * 10 ^ 9

/-- The main phase in nanoseconds. -/
def mainPhase (t : Trial) : Except Fault Nat :=
  let span := t.duration.scaledNat (10 ^ 9)
  if t.duration.isFinite && decide (span < 2 ^ 64 * 10 ^ 9) then .ok span else .error .badDuration

def nameOf (w : World) (m : Member) : Option EntityName :=
  (w.peer? m).map (·.self.name)

/-- A failure unless every expected pair is accurate. -/
def inaccuracy (w : World) : Option Failure :=
  if w.visibility.converged then none else some (.inaccurate w.visibility)

/-- A failure if a peer dropped anybody. -/
def anyDrop (w : World) : Option Failure :=
  w.live.findSome? fun m =>
    let drops := (w.record m).drops
    if drops.isEmpty then none else (nameOf w m).map (.dropped · drops)

/-- The peer holds a position for the player. -/
def holds (w : World) (m : Member) (player : EntityName) : Bool :=
  ((w.peer? m).map fun p => (World.positions p).any (·.1 == player)).getD false

/-- All start in one leaf and have to end with accurate positions and without drops. -/
def convergence (t : Trial) (w : World) : Except Fault (Option Failure × World) := do
  let w ← w.run (← t.mainPhase)
  let all := t.peers * (t.peers - 1)
  let failure :=
    if w.visibility.expected ≠ all then some (.scattered all w.visibility.expected)
    else inaccuracy w <|> anyDrop w
  return (failure, w)

/-- The world after the second player followed the first. -/
def followed (t : Trial) (w : World) (follower : Member) (player : EntityName) (goal : Point) :
    Except Fault (Option Failure × World) := do
  let truth := (w.truth.place follower.number (goal.shift (.ofNat 10))).freeze follower.number
  let w ← { w with truth }.run (← t.mainPhase)
  let seen := (w.peer? follower).bind fun p => (World.positions p).lookup player
  let failure :=
    if (seen.map (·.eq goal)).getD false then inaccuracy w
    else (nameOf w follower).map (.unseen · player away)
  return (failure, w)

/-- The first player jumps far away and has to be forgotten; the second has to find it there. -/
def crossing (t : Trial) (w : World) : Except Fault (Option Failure × World) := do
  let w ← w.run (nanoseconds 5)
  match w.truth.geometry.cubeOf away with
  | .ok (.ok cube) =>
    let goal := cube.center
    let w ← { w with truth := (w.truth.place 0 goal).freeze 0 }.run (nanoseconds 5)
    match w.member? 0, w.member? 1 with
    | some mover, some follower =>
      match w.peer? mover with
      | none => return (some .missingPeers, w)
      | some peer =>
        let player := peer.self.name
        let lingering := w.live.find? fun m => m.number != 0 && holds w m player
        if !peer.tracked.contains away then return (some (.untracked player away), w)
        else
          match lingering.bind (nameOf w) with
          | some observer => return (some (.lingering observer player), w)
          | none => t.followed w follower player goal
    | _, _ => return (some .missingPeers, w)
  | _ => return (some (.noLeaf away), w)

/-- The failure of a survivor to drop a player. -/
def notDropped (w : World) (player : EntityName) (m : Member) : Option Failure :=
  (nameOf w m).bind fun observer =>
    if !(w.record m).drops.contains player then some (.kept observer player)
    else if holds w m player then some (.lingering observer player)
    else none

/-- The last peer stops; the others have to drop its player. -/
def dropout (t : Trial) (w : World) : Except Fault (Option Failure × World) := do
  let w ← w.run (nanoseconds 5)
  let last := t.peers - 1
  match (w.member? last).bind (nameOf w) with
  | none => return (some .missingPeers, w)
  | some player =>
    let w := w.stop last
    let config := w.setup.config
    let timeouts := config.positionTimeout.toNat * (config.dropThreshold.toNat + 1)
    let w ← w.run (max (← t.mainPhase) (timeouts * 1000000 + nanoseconds 5))
    return (w.live.findSome? (notDropped w player) <|> inaccuracy w, w)

/-- Two halves are cut off for eight seconds; nobody may be dropped. -/
def splitBrain (t : Trial) (w : World) : Except Fault (Option Failure × World) := do
  let w ← w.run (nanoseconds 5)
  let nodes := w.live.map (·.node)
  let half := nodes.length / 2
  let cut := w.simulation.setConditions (·.separate (nodes.take half) (nodes.drop half))
  let w ← { w with simulation := cut }.run (nanoseconds 8)
  let w ← { w with simulation := w.simulation.setConditions (·.heal) }.run (← t.mainPhase)
  return (inaccuracy w <|> anyDrop w, w)

/-- Every fifth message is lost; positions have to be accurate all the same. -/
def lossyLink (t : Trial) (w : World) : Except Fault (Option Failure × World) := do
  let w ← w.run ((← t.mainPhase) + nanoseconds 5)
  return (inaccuracy w <|> anyDrop w, w)

/-- Runs the scenario on a world whose peers are spawned. -/
def play (t : Trial) (w : World) : Except Fault (Option Failure × World) :=
  match t.scenario with
  | .convergence => t.convergence w
  | .crossing => t.crossing w
  | .dropout => t.dropout w
  | .splitBrain => t.splitBrain w
  | .lossyLink => t.lossyLink w

def run (timer : Timer) (t : Trial) : Except Fault Verdict := do
  match World.make timer t.setup with
  | .error e => return ⟨t, some (.noWorld e), .zero, ⟨0, 0, 0⟩, ⟨0, 0⟩, 0⟩
  | .ok w =>
    let (spawned, w) := w.spawn home
    let (failure, w) ← match ← spawned with
      | .error e => pure (some (.peer e), w)
      | .ok _ => t.play w
    return {
      trial := t
      failure
      time := w.truth.time
      traffic := w.simulation.hub.traffic
      visibility := w.visibility
      drops := (w.live.flatMap fun m => (w.record m).drops).length }

end Trial

end RegionSync
