import RegionSync.Peer.Basic

/-!
Tracking by a peer. A tracked leaf is marked in the octree and swept; the subscription that brings
requests about it stands at an ancestor and is shared by all tracked leaves below that.
-/

namespace RegionSync.Peer

/-- The region whose subscription serves a leaf. -/
def subscriptionFor (peer : Peer) (leaf : RegionPath) : RegionPath :=
  leaf.ancestor peer.config.levelsUp

def hasSubscription (peer : Peer) (region : RegionPath) : Bool :=
  peer.subscriptions.any (·.1 == region)

/-- The peer with the registration of a region noted, in place of an earlier one. -/
def subscribe (peer : Peer) (region : RegionPath) (id : RegistrationId) : Peer :=
  { peer with subscriptions := peer.subscriptions.filter (·.1 != region) ++ [(region, id)] }

def isTracked (peer : Peer) (region : RegionPath) : Bool :=
  peer.octree.isTracked region

/-- The peer with a leaf tracked, swept after those it tracks already. -/
def track (peer : Peer) (leaf : RegionPath) : Except RegionError Peer :=
  if peer.octree.isLeaf leaf then do
    let octree ← peer.octree.track leaf
    let tracked := if peer.tracked.contains leaf then peer.tracked else peer.tracked ++ [leaf]
    return { peer with octree, tracked }
  else .error (.invalidPath s!"{leaf} is not a leaf")

/-- What has to follow when a leaf is no longer tracked. -/
structure Untracked where
  /-- The registration to give back, if it serves no tracked leaf any more. -/
  released : Option (RegionPath × RegistrationId)
  /-- The players that were forgotten with the leaf. -/
  evicted : List EntityName
  deriving DecidableEq

/-- The peer without the subscription of a region, and its registration. -/
def release (peer : Peer) (region : RegionPath) : Peer × Option (RegionPath × RegistrationId) :=
  ({ peer with subscriptions := peer.subscriptions.filter (·.1 != region) },
    peer.subscriptions.find? (·.1 == region))

/-- The peer with a leaf not tracked and the players in it forgotten. -/
def untrack (peer : Peer) (leaf : RegionPath) : Peer × Untracked :=
  if peer.isTracked leaf then
    let (leaving, staying) := peer.players.partition (·.region == some leaf)
    let evicted := leaving.map (·.name)
    let octree := evicted.foldl (fun t name => t.removeName leaf name) (peer.octree.untrack leaf)
    let peer := { peer with
      octree
      players := staying
      tracked := peer.tracked.filter (· != leaf) }
    let region := peer.subscriptionFor leaf
    if octree.tracksWithin region then (peer, ⟨none, evicted⟩)
    else
      let (peer, released) := peer.release region
      (peer, ⟨released, evicted⟩)
  else (peer, ⟨none, []⟩)

/-- The peer without subscriptions, and all registrations. -/
def releaseAll (peer : Peer) : Peer × List (RegionPath × RegistrationId) :=
  ({ peer with subscriptions := [] }, peer.subscriptions)

end RegionSync.Peer
