import RegionSync.Proofs.Discovery.Listing
import RegionSync.Proofs.Peer.Membership

/-!
What one operation can do to a peer. What the peer was made with stays as it is; an entry of the
table stays with one of a few changes, leaves, or is that of a player just discovered.
-/

namespace RegionSync.Peer

variable {σ : Scheme} {peer after : Peer} {r q : RemotePlayer} {leaf : RegionPath}

/-- What a peer is made with. -/
structure Identity where
  config : Config
  geometry : Geometry
  broadcast : Name
  secret : Bytes
  name : EntityName
  renderTag : String

def identity (peer : Peer) : Identity :=
  ⟨peer.config, peer.geometry, peer.broadcast, peer.secret, peer.self.name, peer.self.renderTag⟩

/-- What only moving and publishing change: the own player, beside what the peer is made with. -/
def own (peer : Peer) : Identity × LocalPlayer :=
  (peer.identity, peer.self)

/-- How an operation can change an entry that stays in the table. -/
inductive Change (c : Config) (g : Geometry) (r : RemotePlayer) : RemotePlayer → Prop
  | kept : Change c g r r
  | polled : Change c g r { r with polled := true }
  | tagged : Change c g r { r with tagRequested := true }
  /-- An answer that could not be used. -/
  | heard : Change c g r { r with polled := false }
  | reset (goal s : UInt32) (hprev : c.window.prev goal = .ok s) :
      Change c g r { r with polled := false, sequence := some s, timeouts := 0 }
  | accepted (s : UInt32) (p : Point) (leaf : RegionPath)
      (hnewer : c.window.isNewer r.sequence s = .ok true) (hleaf : g.leaf? p = some leaf) :
      Change c g r { r with
        polled := false
        location := .known p
        sequence := some s
        history := r.history.record s p
        timeouts := 0
        region := some leaf }
  | missed (timeouts : UInt32) (hcount : Word.add r.timeouts 1 = .ok timeouts)
      (hfew : timeouts ≤ c.dropThreshold) :
      Change c g r { r with polled := false, timeouts, sequence := none }

theorem Change.name_eq {c : Config} {g : Geometry} (h : Change c g q r) : r.name = q.name := by
  cases h <;> rfl

/-- Every entry of `after` is one of `peer`, changed or not. -/
def Descends (peer after : Peer) : Prop :=
  ∀ r ∈ after.players, ∃ q ∈ peer.players, Change peer.config peer.geometry q r

theorem Descends.of_subset (h : after.players ⊆ peer.players) : Descends peer after :=
  fun r hr => ⟨r, h hr, .kept⟩

theorem Descends.setPlayer (hq : q ∈ peer.players) (h : Change peer.config peer.geometry q r) :
    Descends peer (peer.setPlayer r) := by
  intro x hx
  rcases mem_setPlayer hx with rfl | ⟨hx, -⟩
  · exact ⟨q, hq, h⟩
  · exact ⟨x, hx, .kept⟩

/-- Of the peer only the table and the members of leaves are changed. -/
def Keeps (peer after : Peer) : Prop :=
  ∃ players octree, after = { peer with players, octree } ∧
    ∀ p, octree.isTracked p = peer.octree.isTracked p

namespace Keeps

theorem refl (peer : Peer) : Keeps peer peer :=
  ⟨peer.players, peer.octree, rfl, fun _ => rfl⟩

theorem trans {middle : Peer} (h : Keeps peer middle) (h' : Keeps middle after) :
    Keeps peer after := by
  obtain ⟨first, second, rfl, hkept⟩ := h
  obtain ⟨players, octree, rfl, hkept'⟩ := h'
  refine ⟨players, octree, rfl, ?_⟩
  intro p
  exact (hkept' p).trans (hkept p)

theorem setPlayer (peer : Peer) (r : RemotePlayer) : Keeps peer (peer.setPlayer r) :=
  ⟨_, peer.octree, rfl, fun _ => rfl⟩

theorem forget (peer : Peer) (name : EntityName) : Keeps peer (peer.forget name) :=
  ⟨_, peer.octree, rfl, fun _ => rfl⟩

theorem own (h : Keeps peer after) : after.own = peer.own := by
  obtain ⟨players, octree, rfl, -⟩ := h
  rfl

theorem isTracked (h : Keeps peer after) (p : RegionPath) :
    after.isTracked p = peer.isTracked p := by
  obtain ⟨players, octree, rfl, hkept⟩ := h
  exact hkept p

end Keeps

/-! The own player. -/

theorem moveTo_frame {position : Point} (h : peer.moveTo position = .ok after) :
    after.identity = peer.identity ∧ after.players = peer.players := by
  unfold moveTo at h
  split at h
  · cases h
    exact ⟨rfl, rfl⟩
  · cases h

theorem relist_frame (peer : Peer) (leaf : RegionPath) :
    (peer.relist leaf).2.identity = peer.identity ∧ (peer.relist leaf).2.players = peer.players ∧
      ∃ region, (peer.relist leaf).2.self = { peer.self with region } := by
  rcases relist_cases peer leaf with ⟨octree, -, heq⟩ | heq
  · rw [heq]
    exact ⟨rfl, rfl, leaf, rfl⟩
  · rw [heq]
    exact ⟨rfl, rfl, peer.self.region, rfl⟩

/-- Publishing changes no more than the own player and its place. -/
theorem publish_frame (peer : Peer) :
    peer.publish.peer.identity = peer.identity ∧ peer.publish.peer.players = peer.players := by
  unfold publish
  split
  · exact ⟨rfl, rfl⟩
  · dsimp only
    split
    · exact ⟨rfl, rfl⟩
    · split
      · exact ⟨rfl, rfl⟩
      · obtain ⟨hidentity, hplayers, -⟩ := relist_frame { peer with self := _ } _
        exact ⟨hidentity, hplayers⟩

/-! Discovery. -/

/-- The entry of a player that was discovered in a tracked leaf, under a name that can be read. -/
def Discovered (peer : Peer) (r : RemotePlayer) : Prop :=
  ∃ name region, r = .discovered name region peer.config.windowSize ∧ name.Valid ∧
    name ≠ peer.self.name ∧ peer.isTracked region = true

theorem keeps_takeUp (peer : Peer) (news : RegionPath × EntityName) :
    Keeps peer (peer.takeUp news).1 := by
  rcases takeUp_cases peer news.1 news.2 with hsame | ⟨-, octree, hadd, htaken⟩
  · rw [hsame]
    exact .refl peer
  · rw [htaken]
    exact ⟨_, octree, rfl, Octree.isTracked_addName hadd⟩

theorem keeps_takeUpAll (peer : Peer) (list : List (RegionPath × EntityName)) :
    Keeps peer (peer.takeUpAll list).1 := by
  induction list generalizing peer with
  | nil => exact .refl peer
  | cons news rest ih => exact (keeps_takeUp peer news).trans (ih (peer.takeUp news).1)

theorem of_mem_takeUpAll {list : List (RegionPath × EntityName)}
    (h : r ∈ (peer.takeUpAll list).1.players) : r ∈ peer.players ∨
      ∃ news ∈ list, r = .discovered news.2 news.1 peer.config.windowSize := by
  induction list generalizing peer with
  | nil => exact Or.inl h
  | cons news rest ih =>
      have hconfig : (peer.takeUp news).1.config = peer.config :=
        congrArg (·.1.config) (keeps_takeUp peer news).own
      have hrest : r ∈ (peer.takeUp news).1.players ∨ ∃ other ∈ rest,
          r = .discovered other.2 other.1 (peer.takeUp news).1.config.windowSize := ih h
      rcases hrest with hfirst | ⟨other, hother, heq⟩
      · rcases takeUp_cases peer news.1 news.2 with hsame | ⟨-, octree, -, htaken⟩
        · rw [hsame] at hfirst
          exact Or.inl hfirst
        · rw [htaken, List.mem_append, List.mem_singleton] at hfirst
          exact hfirst.imp_right fun heq => ⟨news, List.mem_cons_self, heq⟩
      · rw [hconfig] at heq
        exact Or.inr ⟨other, List.mem_cons_of_mem _ hother, heq⟩

theorem keeps_learn (peer : Peer) (response : Response) :
    Keeps peer (peer.learn σ response).peer := by
  unfold learn
  split
  · exact .refl peer
  · split
    · exact .refl peer
    · exact keeps_takeUpAll ..

theorem of_mem_learn {response : Response} (h : r ∈ (peer.learn σ response).peer.players) :
    r ∈ peer.players ∨ Discovered peer r := by
  unfold learn at h
  split at h
  · exact Or.inl h
  · split at h
    · exact Or.inl h
    · next listings hbody =>
        refine (of_mem_takeUpAll h).imp_right fun ⟨news, hnews, heq⟩ => ?_
        obtain ⟨hforeign, -, l, hl, htracked, -, hregion, hname⟩ :=
          Discovery.of_mem_unknown hnews
        exact ⟨news.2, news.1, heq, Listing.valid_of_ofBody hbody l hl news.2 hname, hforeign,
          hregion ▸ htracked⟩

/-! Polls and their answers. -/

theorem descends_polls (peer : Peer) : Descends peer peer.polls.peer := by
  have hall : ∀ (w : Window) (lifetime : Nat) (players : List RemotePlayer),
      ∀ r ∈ (pollAll w lifetime players).1, ∃ q ∈ players, Change peer.config peer.geometry q r := by
    intro w lifetime players
    induction players with
    | nil => exact fun r hr => absurd hr List.not_mem_nil
    | cons q players ih =>
        have hrest : ∀ r ∈ (pollAll w lifetime players).1, ∃ x ∈ q :: players,
            Change peer.config peer.geometry x r := by
          intro r hr
          obtain ⟨x, hx, hchange⟩ := ih r hr
          exact ⟨x, List.mem_cons_of_mem _ hx, hchange⟩
        simp only [pollAll]
        split
        · exact List.forall_mem_cons.2 ⟨⟨q, List.mem_cons_self, .kept⟩, hrest⟩
        · split
          · exact List.forall_mem_cons.2 ⟨⟨q, List.mem_cons_self, .polled⟩, fun r hr =>
              ⟨r, List.mem_cons_of_mem _ hr, .kept⟩⟩
          · exact List.forall_mem_cons.2 ⟨⟨q, List.mem_cons_self, .polled⟩, hrest⟩
  exact hall _ _ _

theorem isTracked_moveName (t : Octree) (name : EntityName) (old : Option RegionPath)
    (leaf q : RegionPath) : (moveName t name old leaf).1.isTracked q = t.isTracked q := by
  have hlisted : ∀ t : Octree, (moveName t name none leaf).1.isTracked q = t.isTracked q := by
    intro t
    simp only [moveName]
    split
    · split
      · next hadd => exact Octree.isTracked_addName hadd q
      · rfl
    · rfl
  cases old with
  | none => exact hlisted t
  | some region =>
      rw [← Octree.isTracked_removeName t region name q]
      exact hlisted (t.removeName region name)

theorem keeps_accept (peer : Peer) (r : RemotePlayer) (sequence : UInt32) (p : Point)
    (leaf : RegionPath) : Keeps peer (peer.accept r sequence p leaf).1 := by
  have hmoved : Keeps peer { peer with octree := (moveName peer.octree r.name r.region leaf).1 } :=
    ⟨peer.players, _, rfl, isTracked_moveName peer.octree r.name r.region leaf⟩
  unfold accept
  dsimp only
  split
  · exact .setPlayer ..
  · split
    · exact hmoved.trans (.setPlayer ..)
    · exact hmoved.trans (.forget ..)

/-- Of an accepted position only the player's own entry takes note. -/
theorem of_mem_accept {sequence : UInt32} {p : Point}
    (h : q ∈ (peer.accept r sequence p leaf).1.players) : q ∈ peer.players ∨ q = { r with
      location := .known p
      sequence := some sequence
      history := r.history.record sequence p
      timeouts := 0
      region := some leaf } := by
  unfold accept at h
  dsimp only at h
  split at h
  · next hsame =>
      rcases mem_setPlayer h with heq | ⟨hq, -⟩
      · rw [heq, hsame]
        exact Or.inr rfl
      · exact Or.inl hq
  · split at h
    · exact (mem_setPlayer h).symm.imp_left And.left
    · exact Or.inl (List.mem_filter.1 h).1

theorem keeps_apply (peer : Peer) (r : RemotePlayer) (sequence : UInt32) (payload : Payload) :
    Keeps peer (peer.apply r sequence payload).peer := by
  unfold apply
  cases payload with
  | reset goal reason =>
      dsimp only
      split
      · exact .refl peer
      · exact .setPlayer ..
  | position p =>
      dsimp only
      split
      · exact .refl peer
      · exact .refl peer
      · split
        · exact .refl peer
        · exact keeps_accept ..

theorem of_mem_apply {sequence : UInt32} {payload : Payload}
    (h : q ∈ (peer.apply { r with polled := false } sequence payload).peer.players) :
    q ∈ peer.players ∨ Change peer.config peer.geometry r q := by
  unfold apply at h
  cases payload with
  | reset goal reason =>
      dsimp only at h
      split at h
      · exact Or.inl h
      · next s hprev =>
          rcases mem_setPlayer h with heq | ⟨hq, -⟩
          · rw [heq]
            exact Or.inr (.reset goal s hprev)
          · exact Or.inl hq
  | position p =>
      dsimp only at h
      split at h
      · exact Or.inl h
      · exact Or.inl h
      · next hnewer =>
          split at h
          · exact Or.inl h
          · next hleaf =>
              refine (of_mem_accept h).imp_right fun heq => ?_
              rw [heq]
              exact .accepted sequence p _ hnewer hleaf

theorem descends_hear (peer : Peer) (name : EntityName) (response : Response) :
    Descends peer (peer.hear σ name response).peer := by
  unfold hear
  dsimp only
  split
  · exact .of_subset fun _ => id
  · next q hfound =>
      have hq := mem_of_player? hfound
      have hheard := Descends.setPlayer hq .heard
      split
      · exact hheard
      · intro r hr
        rcases of_mem_apply hr with hkept | hchange
        · exact hheard r hkept
        · exact ⟨q, hq, hchange⟩

theorem keeps_hear (peer : Peer) (name : EntityName) (response : Response) :
    Keeps peer (peer.hear σ name response).peer := by
  unfold hear
  dsimp only
  split
  · exact .refl peer
  · split
    · exact .setPlayer ..
    · exact (Keeps.setPlayer ..).trans (keeps_apply ..)

theorem keeps_miss (peer : Peer) (name : EntityName) : Keeps peer (peer.miss name).peer := by
  unfold miss
  split
  · exact .refl peer
  · next r _ =>
      dsimp only
      split
      · exact .setPlayer ..
      · split
        · exact .setPlayer ..
        · refine ⟨_, _, rfl, ?_⟩
          intro p
          cases r.region with
          | none => rfl
          | some region => exact Octree.isTracked_removeName peer.octree region name p

theorem descends_miss (peer : Peer) (name : EntityName) : Descends peer (peer.miss name).peer := by
  unfold miss
  split
  · exact .of_subset fun _ => id
  · next r hfound =>
      have hr := mem_of_player? hfound
      dsimp only
      split
      · exact .setPlayer hr .heard
      · next timeouts hcount =>
          split
          · next hfew => exact .setPlayer hr (.missed timeouts hcount hfew)
          · exact .of_subset (List.filter_subset_self _)

/-! Tracking. -/

theorem track_frame (h : peer.track leaf = .ok after) :
    after.own = peer.own ∧ after.players = peer.players := by
  obtain ⟨octree, tracked, -, rfl⟩ := exists_of_track h
  exact ⟨rfl, rfl⟩

theorem own_untrack (peer : Peer) (leaf : RegionPath) :
    (peer.untrack leaf).1.own = peer.own := by
  unfold untrack
  split
  · dsimp only
    split <;> rfl
  · rfl

theorem players_untrack_subset (peer : Peer) (leaf : RegionPath) :
    (peer.untrack leaf).1.players ⊆ peer.players := by
  unfold untrack
  split
  · rw [List.partition_eq_filter_filter]
    dsimp only
    split <;> exact List.filter_subset_self _
  · exact fun _ => id

theorem descends_untrack (peer : Peer) (leaf : RegionPath) :
    Descends peer (peer.untrack leaf).1 :=
  .of_subset (players_untrack_subset peer leaf)

/-! One operation. -/

theorem identity_step (peer : Peer) (operation : Operation) :
    (peer.step σ operation).1.identity = peer.identity := by
  cases operation with
  | moveTo position =>
      simp only [step]
      split
      · next hok => exact (moveTo_frame hok).1
      · rfl
  | publish => exact (publish_frame peer).1
  | learn response => exact congrArg Prod.fst (keeps_learn peer response).own
  | polls => rfl
  | hear name response => exact congrArg Prod.fst (keeps_hear peer name response).own
  | miss name => exact congrArg Prod.fst (keeps_miss peer name).own
  | tagRequests => rfl
  | track leaf =>
      simp only [step]
      split
      · next hok => exact congrArg Prod.fst (track_frame hok).1
      · rfl
  | untrack leaf => exact congrArg Prod.fst (own_untrack peer leaf)
  | subscribe region id => rfl
  | releaseAll => rfl

theorem self_step (peer : Peer) {operation : Operation} (hmove : ∀ p, operation ≠ .moveTo p)
    (hpublish : operation ≠ .publish) : (peer.step σ operation).1.self = peer.self := by
  cases operation with
  | moveTo position => exact absurd rfl (hmove position)
  | publish => exact absurd rfl hpublish
  | learn response => exact congrArg Prod.snd (keeps_learn peer response).own
  | polls => rfl
  | hear name response => exact congrArg Prod.snd (keeps_hear peer name response).own
  | miss name => exact congrArg Prod.snd (keeps_miss peer name).own
  | tagRequests => rfl
  | track leaf =>
      simp only [step]
      split
      · next hok => exact congrArg Prod.snd (track_frame hok).1
      · rfl
  | untrack leaf => exact congrArg Prod.snd (own_untrack peer leaf)
  | subscribe region id => rfl
  | releaseAll => rfl

/-- After an operation each entry is one from before, changed or not, or one just discovered. -/
theorem of_mem_step {operation : Operation} (h : r ∈ (peer.step σ operation).1.players) :
    (∃ q ∈ peer.players, Change peer.config peer.geometry q r) ∨ Discovered peer r := by
  have hkept : ∀ {after : Peer}, after.players = peer.players → Descends peer after :=
    fun heq => .of_subset fun _ hr => heq ▸ hr
  cases operation with
  | moveTo position =>
      simp only [step] at h
      split at h
      · next hok => exact Or.inl (hkept (moveTo_frame hok).2 r h)
      · exact Or.inl ⟨r, h, .kept⟩
  | publish => exact Or.inl (hkept (publish_frame peer).2 r h)
  | learn response => exact (of_mem_learn h).imp_left fun hr => ⟨r, hr, .kept⟩
  | polls => exact Or.inl (descends_polls peer r h)
  | hear name response => exact Or.inl (descends_hear peer name response r h)
  | miss name => exact Or.inl (descends_miss peer name r h)
  | tagRequests =>
      obtain ⟨q, hq, rfl⟩ := List.mem_map.1 h
      exact Or.inl ⟨q, hq, .tagged⟩
  | track leaf =>
      simp only [step] at h
      split at h
      · next hok => exact Or.inl (hkept (track_frame hok).2 r h)
      · exact Or.inl ⟨r, h, .kept⟩
  | untrack leaf => exact Or.inl (descends_untrack peer leaf r h)
  | subscribe region id => exact Or.inl ⟨r, h, .kept⟩
  | releaseAll => exact Or.inl ⟨r, h, .kept⟩

/-! Every reachable state. -/

theorem identity_run (peer : Peer) (operations : List Operation) :
    (peer.run σ operations).identity = peer.identity :=
  run_induction (motive := fun after => after.identity = peer.identity)
    (fun _ operation h => (identity_step _ operation).trans h) rfl operations

/-- A reachable peer was made from settings that pass their check. -/
theorem Reachable.made (h : peer.Reachable σ) :
    peer.config.validate = .ok () ∧ peer.config.geometry = .ok peer.geometry ∧
      peer.config.broadcastName = .ok peer.broadcast ∧
      ∃ id, EntityName.make peer.config.hub id = .ok peer.self.name := by
  obtain ⟨config, id, position, secret, start, operations, hstart, rfl⟩ := h
  obtain ⟨hvalid, hgeometry, hbroadcast, hname, -, -, hpeer⟩ := make_eq_ok hstart
  have hidentity := identity_run (σ := σ) start operations
  have hconfig : start.config = config := by rw [hpeer]
  simp only [identity, Identity.mk.injEq] at hidentity
  obtain ⟨hc, hg, hb, -, hn, -⟩ := hidentity
  rw [hc, hg, hb, hn, hconfig]
  exact ⟨hvalid, hgeometry, hbroadcast, id, hname⟩

/-- In a reachable state every player has a name that is read back from its text. -/
theorem Reachable.valid (h : peer.Reachable σ) :
    peer.self.name.Valid ∧ ∀ r ∈ peer.players, r.name.Valid := by
  constructor
  · obtain ⟨-, -, -, id, hname⟩ := h.made
    exact EntityName.valid_of_make hname
  · refine h.induction (motive := fun peer => ∀ r ∈ peer.players, r.name.Valid) ?_ ?_
    · intro config id position secret start hstart r hr
      obtain ⟨-, -, -, -, -, -, hpeer⟩ := make_eq_ok hstart
      rw [hpeer] at hr
      cases hr
    · intro before operation hbefore r hr
      rcases of_mem_step hr with ⟨q, hq, hchange⟩ | ⟨name, region, rfl, hvalid, -, -⟩
      · rw [hchange.name_eq]
        exact hbefore q hq
      · exact hvalid

end RegionSync.Peer
