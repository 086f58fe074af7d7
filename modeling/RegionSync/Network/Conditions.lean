import RegionSync.Node
import RegionSync.Random.Generator

/-!
Conditions of a simulated network: who is cut off from whom, and the latency and the chance of loss
from one node to another. Losses are drawn in order from one source.
-/

namespace RegionSync.Network

/-- A direction between two nodes. -/
abbrev Link := NodeId × NodeId

/-- The conditions at a moment, and the source of the losses to come. -/
structure Conditions where
  /-- Pairs of groups that cannot reach each other. -/
  partitions : List (List NodeId × List NodeId)
  /-- Milliseconds on a link, zero where nothing is set. -/
  latencies : List (Link × Nat)
  losses : List (Link × Double)
  /-- The chance of loss on links without one of their own. -/
  defaultLoss : Double
  source : Random.Generator

namespace Conditions

/-- A network without faults, its losses to be drawn from this seed. -/
def ofSeed (seed : UInt64) : Conditions :=
  ⟨[], [], [], .zero, .ofSeed seed⟩

/-- A chance of loss brought into `[0, 1]`. -/
def chance (p : Double) : Double :=
  p.clamp .zero (.ofNat 1)

/-- The groups cannot reach each other from now on. -/
def separate (c : Conditions) (a b : List NodeId) : Conditions :=
  { c with partitions := c.partitions ++ [(a, b)] }

def heal (c : Conditions) : Conditions :=
  { c with partitions := [] }

def setLatency (c : Conditions) (link : Link) (milliseconds : Nat) : Conditions :=
  { c with latencies := (link, milliseconds) :: c.latencies }

def setLoss (c : Conditions) (link : Link) (p : Double) : Conditions :=
  { c with losses := (link, chance p) :: c.losses }

def setDefaultLoss (c : Conditions) (p : Double) : Conditions :=
  { c with defaultLoss := chance p }

/-- No partition separates the ends of the link. -/
def connected (c : Conditions) (link : Link) : Bool :=
  !c.partitions.any fun (a, b) =>
    (a.contains link.1 && b.contains link.2) || (b.contains link.1 && a.contains link.2)

def latency (c : Conditions) (link : Link) : Nat :=
  (c.latencies.lookup link).getD 0

def loss (c : Conditions) (link : Link) : Double :=
  (c.losses.lookup link).getD c.defaultLoss

/-- Decides whether a message on the link gets through. Only a chance of loss draws. -/
def delivers (c : Conditions) (link : Link) : Except Fault (Bool × Conditions) :=
  if !c.connected link then .ok (false, c)
  else if Binary.le (c.loss link) .zero then .ok (true, c)
  else do
    let (lost, source) ← c.source.chance (c.loss link)
    return (!lost, { c with source })

end Conditions

end RegionSync.Network
