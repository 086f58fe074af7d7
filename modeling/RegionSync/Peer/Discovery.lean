import RegionSync.Peer.Basic

/-!
Discovery by a peer: which requests a sweep makes, how a request is answered, and what an answer
teaches.
-/

namespace RegionSync.Peer

open Discovery

/-- The name under which requests about a region stand. -/
def regionName (peer : Peer) (region : RegionPath) : Name :=
  Query.regionName peer.broadcast region

/-- The targets with a leaf added to the one of its parent, or as the first of its parent. -/
def addSibling (targets : List Target) (leaf : RegionPath) : List Target :=
  match leaf.parent?, leaf.digits.getLast? with
  | some parent, some i =>
    let joins : Target → Bool
      | .siblings p _ => p == parent
      | .region _ => false
    if targets.any joins then
      targets.map fun
        | .siblings p children => .siblings p (if p = parent then children ++ [i] else children)
        | t => t
    else targets ++ [.siblings parent [i]]
  | _, _ => targets ++ [.region leaf]

/-- What the next sweep asks about, in order: the tracked leaves one by one, or by parents. -/
def sweepTargets (peer : Peer) : List Target :=
  if peer.config.batchSiblings then peer.tracked.foldl addSibling []
  else peer.tracked.map .region

/-- The request about a target, with the digests as they are now. -/
def discoveryRequest (peer : Peer) (target : Target) : Request :=
  Discovery.request peer.broadcast peer.config.broadcastTimeout.toNat peer.octree target

/-- The signed answer to a discovery request, if there is something to say. -/
def answerDiscovery (σ : Scheme) (peer : Peer) (name : Name) (timestamp : UInt64) :
    Option Response × List Event :=
  match Query.ofName peer.broadcast name with
  | .error e => (none, [.log .warning s!"bad discovery request {name}: {e.message}"])
  | .ok q =>
    let listings := answer peer.octree q
    if listings.isEmpty then (none, [])
    else peer.signed σ name (Listing.body listings) peer.config.digestFreshnessMs timestamp

/-- Takes up a player that a leaf lists, unless it is known: its own positions will move it. -/
def takeUp (peer : Peer) (news : RegionPath × EntityName) : Peer × List (RegionPath × EntityName) :=
  let (region, name) := news
  if (peer.player? name).isSome then (peer, [])
  else
    match peer.octree.addName region name with
    | .error _ => (peer, [])
    | .ok octree =>
      let r := RemotePlayer.discovered name region peer.config.windowSize
      ({ peer with octree, players := peer.players ++ [r] }, [(region, name)])

/-- Takes up the players of a list one after the other. -/
def takeUpAll (peer : Peer) : List (RegionPath × EntityName) → Peer × List (RegionPath × EntityName)
  | [] => (peer, [])
  | news :: rest =>
    let (peer, first) := peer.takeUp news
    let (peer, others) := takeUpAll peer rest
    (peer, first ++ others)

/-- Takes up every unknown player of a discovery answer; the value is their names. An answer that
does not verify or does not parse teaches nothing. -/
def learn (σ : Scheme) (peer : Peer) (response : Response) : Outcome (List EntityName) :=
  match distrust σ response with
  | some events => ⟨[], peer, events⟩
  | none =>
    match Listing.ofBody response.content with
    | .error e =>
      ⟨[], peer, [.log .warning s!"discarding discovery answer {response.name}: {e.message}"]⟩
    | .ok listings =>
      let (after, found) := peer.takeUpAll (unknown peer.octree listings peer.self.name)
      { value := found.map (·.2)
        peer := after
        events := found.flatMap fun (region, name) =>
          [.log .info s!"discovered {name} at {region}", .located name .discovered] }

end RegionSync.Peer
