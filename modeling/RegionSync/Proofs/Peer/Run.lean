import RegionSync.Peer.Discovery
import RegionSync.Peer.Polling
import RegionSync.Peer.Publishing
import RegionSync.Peer.Tracking

/-!
Runs of a peer: the operations that change its state, in any order and with any arguments. What one
operation keeps, a run keeps.
-/

namespace RegionSync.Peer

/-- An operation that can change the state of a peer. -/
inductive Operation
  | moveTo (position : Point)
  | publish
  | learn (response : Response)
  | polls
  | hear (name : EntityName) (response : Response)
  | miss (name : EntityName)
  | tagRequests
  | track (leaf : RegionPath)
  | untrack (leaf : RegionPath)
  | subscribe (region : RegionPath) (id : RegistrationId)
  | releaseAll

/-- The state after an operation and the reports made. What is refused changes nothing; a fault
leaves the state that the operation had reached. -/
def step (σ : Scheme) (peer : Peer) : Operation → Peer × List Event
  | .moveTo position =>
    match peer.moveTo position with
    | .ok moved => (moved, [])
    | .error _ => (peer, [])
  | .publish => (peer.publish.peer, peer.publish.events)
  | .learn response => ((peer.learn σ response).peer, (peer.learn σ response).events)
  | .polls => (peer.polls.peer, peer.polls.events)
  | .hear name response => ((peer.hear σ name response).peer, (peer.hear σ name response).events)
  | .miss name => ((peer.miss name).peer, (peer.miss name).events)
  | .tagRequests => (peer.tagRequests.peer, peer.tagRequests.events)
  | .track leaf =>
    match peer.track leaf with
    | .ok tracking => (tracking, [])
    | .error _ => (peer, [])
  | .untrack leaf => ((peer.untrack leaf).1, [])
  | .subscribe region id => (peer.subscribe region id, [])
  | .releaseAll => (peer.releaseAll.1, [])

def run (σ : Scheme) (peer : Peer) (operations : List Operation) : Peer :=
  operations.foldl (fun peer operation => (peer.step σ operation).1) peer

/-- A state that some peer has after some operations. -/
def Reachable (σ : Scheme) (peer : Peer) : Prop :=
  ∃ config id position secret start operations,
    make config id position secret = .ok (.ok start) ∧ start.run σ operations = peer

theorem run_cons (σ : Scheme) (peer : Peer) (operation : Operation) (operations : List Operation) :
    peer.run σ (operation :: operations) = (peer.step σ operation).1.run σ operations := rfl

/-- A new peer has nobody in its table, and its own player in the leaf of its position. -/
theorem make_eq_ok {config : Config} {id : String} {position : Point} {secret : Bytes} {peer : Peer}
    (h : make config id position secret = .ok (.ok peer)) :
    config.validate = .ok () ∧ config.geometry = .ok peer.geometry ∧
      config.broadcastName = .ok peer.broadcast ∧
      EntityName.make config.hub id = .ok peer.self.name ∧
      peer.geometry.leafAt position = .ok (.ok peer.self.region) ∧
      (Octree.empty peer.geometry).addName peer.self.region peer.self.name = .ok peer.octree ∧
      peer = { peer with
        config, secret
        self := ⟨peer.self.name, position, none, .empty config.windowSize, peer.self.region,
          config.renderTag⟩
        players := []
        tracked := []
        subscriptions := [] } := by
  unfold make at h
  dsimp only at h
  split at h
  · cases h
  · next geometry broadcast name hchecked =>
      obtain ⟨_, hvalid, hchecked⟩ := ok_of_bind hchecked
      obtain ⟨_, hgeometry, hchecked⟩ := ok_of_bind hchecked
      obtain ⟨_, hbroadcast, hchecked⟩ := ok_of_bind hchecked
      obtain ⟨_, hname, hchecked⟩ := ok_of_bind hchecked
      cases hchecked
      split at h
      · cases h
      · cases h
      · next region hregion =>
          split at h
          · cases h
          · next octree hoctree =>
              cases h
              exact ⟨ok_of_mapError hvalid, ok_of_mapError hgeometry, ok_of_mapError hbroadcast,
                ok_of_mapError hname, hregion, hoctree, rfl⟩

theorem relist_of_addName {peer : Peer} {leaf : RegionPath} {octree : Octree}
    (h : (peer.octree.removeName peer.self.region peer.self.name).addName leaf peer.self.name =
      .ok octree) :
    peer.relist leaf = (true, { peer with octree, self := { peer.self with region := leaf } }) := by
  rw [relist, h]

/-- The own player moves in the octree, or is taken out of it. -/
theorem relist_cases (peer : Peer) (leaf : RegionPath) :
    (∃ octree, (peer.octree.removeName peer.self.region peer.self.name).addName leaf
        peer.self.name = .ok octree ∧
      peer.relist leaf = (true, { peer with octree, self := { peer.self with region := leaf } })) ∨
    peer.relist leaf =
      (false, { peer with octree := peer.octree.removeName peer.self.region peer.self.name }) := by
  cases hadd : (peer.octree.removeName peer.self.region peer.self.name).addName leaf
      peer.self.name with
  | ok octree => exact Or.inl ⟨octree, rfl, relist_of_addName hadd⟩
  | error e =>
      right
      rw [relist, hadd]

theorem exists_of_track {peer after : Peer} {leaf : RegionPath} (h : peer.track leaf = .ok after) :
    ∃ octree tracked, peer.octree.track leaf = .ok octree ∧
      after = { peer with octree, tracked } := by
  unfold track at h
  split at h
  · obtain ⟨octree, htrack, hafter⟩ := ok_of_bind h
    exact ⟨octree, _, htrack, (Except.ok.inj hafter).symm⟩
  · cases h

/-- The new peer, if making one gives one. -/
def made? (config : Config) (id : String) (position : Point) (secret : Bytes) : Option Peer :=
  (make config id position secret).toOption.bind (·.toOption)

/-- A peer is made, with a property that is checked on it. -/
theorem exists_make {config : Config} {id : String} {position : Point} {secret : Bytes}
    {P : Peer → Bool} (h : (made? config id position secret).any P = true) :
    ∃ peer, make config id position secret = .ok (.ok peer) ∧ P peer = true := by
  unfold made? at h
  cases hmake : make config id position secret with
  | error => simp [hmake, Except.toOption] at h
  | ok made =>
      cases made with
      | error => simp [hmake, Except.toOption] at h
      | ok peer => exact ⟨peer, rfl, by simpa [hmake, Except.toOption] using h⟩

theorem run_induction {σ : Scheme} {motive : Peer → Prop}
    (hstep : ∀ peer operation, motive peer → motive (peer.step σ operation).1)
    {peer : Peer} (h : motive peer) (operations : List Operation) :
    motive (peer.run σ operations) := by
  induction operations generalizing peer with
  | nil => exact h
  | cons operation operations ih =>
      rw [run_cons]
      exact ih (hstep peer operation h)

/-- What every new peer has and every operation keeps holds in every reachable state. -/
theorem Reachable.induction {σ : Scheme} {motive : Peer → Prop}
    (hmake : ∀ config id position secret peer,
      make config id position secret = .ok (.ok peer) → motive peer)
    (hstep : ∀ peer operation, motive peer → motive (peer.step σ operation).1)
    {peer : Peer} (h : peer.Reachable σ) : motive peer := by
  obtain ⟨config, id, position, secret, start, operations, hstart, rfl⟩ := h
  exact run_induction hstep (hmake config id position secret start hstart) operations

theorem Reachable.step {σ : Scheme} {peer : Peer} (h : peer.Reachable σ) (operation : Operation) :
    (peer.step σ operation).1.Reachable σ := by
  obtain ⟨config, id, position, secret, start, operations, hstart, rfl⟩ := h
  refine ⟨config, id, position, secret, start, operations ++ [operation], hstart, ?_⟩
  simp [run, List.foldl_append]

end RegionSync.Peer
