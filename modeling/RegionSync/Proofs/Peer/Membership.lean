import RegionSync.Proofs.Discovery.News
import RegionSync.Proofs.Peer.Consistency

/-!
Every operation of a peer keeps its table and its octree in step, so in every reachable state the
whole octree lists exactly the players of the table, each once and in the leaf of its entry, and the
peer's own player.
-/

namespace RegionSync.Peer

variable {σ : Scheme} {peer after : Peer} {r : RemotePlayer} {leaf : RegionPath}

theorem Consistent.make {config : Config} {id : String} {position : Point} {secret : Bytes}
    (h : make config id position secret = .ok (.ok peer)) : peer.Consistent := by
  obtain ⟨-, -, -, -, -, hadd, hpeer⟩ := make_eq_ok h
  have hplayers : peer.players = [] := by rw [hpeer]
  have hgeometry := Octree.geometry_addName hadd
  refine ⟨(Octree.wellFormed_empty _).addName hadd, hgeometry, ?_, ?_, ?_, ?_, ?_, ?_⟩
  · rw [Octree.isLeaf_congr hgeometry]
    exact (Octree.addName_eq_ok_iff.1 hadd).1
  · simp [hplayers]
  · simp [hplayers]
  · simp [hplayers]
  · intro p e
    have hnobody : ¬ (Octree.empty peer.geometry).hasName p e = true := by
      rw [Octree.hasName_iff]
      rw [show (Octree.empty peer.geometry).contentAt p = .none from Octant.contentAt_empty p.digits]
      exact List.not_mem_nil
    rw [Octree.hasName_addName hadd, hplayers]
    simp [hnobody, and_comm]
  · simp [hplayers]

/-! Its own player. -/

theorem Consistent.moveTo (h : peer.Consistent) {position : Point}
    (hok : peer.moveTo position = .ok after) : after.Consistent := by
  unfold Peer.moveTo at hok
  split at hok
  · cases hok
    exact h.congr rfl rfl rfl rfl rfl h.alive
  · cases hok

/-- A leaf of the geometry is a leaf of the octree. -/
theorem Consistent.isLeaf_of_leaf? (h : peer.Consistent) {p : Point}
    (hleaf : peer.geometry.leaf? p = some leaf) : peer.octree.isLeaf leaf = true := by
  unfold Geometry.leaf? at hleaf
  split at hleaf
  · cases hleaf
    simp [Octree.isLeaf_iff, h.geometry, Geometry.leaf]
  · cases hleaf

theorem Consistent.relist (h : peer.Consistent) (hleaf : peer.octree.isLeaf leaf = true) :
    (peer.relist leaf).2.Consistent := by
  have hremoved := h.wellFormed.removeName peer.self.region peer.self.name
  obtain ⟨octree, hadd⟩ := Octree.exists_addName_of_move peer.self.region peer.self.name hleaf
  rw [relist_of_addName hadd]
  obtain ⟨hgeometry, htracked, hleaf⟩ := Octree.frame_of_move hadd
  refine ⟨hremoved.addName hadd, hgeometry.trans h.geometry, hleaf, h.nodup, h.foreign, ?_, ?_,
    h.alive⟩
  · intro r hr
    obtain ⟨p, hp, ht, hl⟩ := h.housed r hr
    exact ⟨p, hp, (htracked p).trans ht, (Octree.isLeaf_congr hgeometry p).trans hl⟩
  · intro p e
    show octree.hasName p e = true ↔
      e = peer.self.name ∧ p = leaf ∨ ∃ r ∈ peer.players, r.card = (e, some p)
    rw [Octree.hasName_addName hadd, Octree.hasName_removeName h.wellFormed, h.listed]
    constructor
    · rintro (⟨⟨rfl, rfl⟩ | hother, hnot⟩ | ⟨rfl, rfl⟩)
      · exact absurd ⟨rfl, rfl⟩ hnot
      · exact Or.inr hother
      · exact Or.inl ⟨rfl, rfl⟩
    · rintro (⟨rfl, rfl⟩ | ⟨r, hr, hcard⟩)
      · exact Or.inr ⟨rfl, rfl⟩
      · refine Or.inl ⟨Or.inr ⟨r, hr, hcard⟩, fun hown => h.foreign r hr ?_⟩
        exact (RemotePlayer.card_eq_iff.1 hcard).1.trans hown.2

theorem Consistent.publish (h : peer.Consistent) : peer.publish.peer.Consistent := by
  unfold Peer.publish
  split
  · exact h
  · next sequence _ =>
      have hnoted : ({ peer with
          self := { peer.self with
            sequence := some sequence
            history := peer.self.history.record sequence peer.self.position } }).Consistent :=
        h.congr rfl rfl rfl rfl rfl h.alive
      dsimp only
      split
      · exact hnoted
      · split
        · exact hnoted
        · next hleaf _ => exact hnoted.relist (hnoted.isLeaf_of_leaf? hleaf)

/-! Players that an answer lists. -/

theorem takeUp_of_isSome {region : RegionPath} {name : EntityName}
    (h : (peer.player? name).isSome = true) : peer.takeUp (region, name) = (peer, []) :=
  if_pos h

theorem takeUp_of_addName {region : RegionPath} {name : EntityName} {octree : Octree}
    (h : peer.player? name = none) (hadd : peer.octree.addName region name = .ok octree) :
    peer.takeUp (region, name) =
      ({ peer with
          octree
          players := peer.players ++
            [RemotePlayer.discovered name region peer.config.windowSize] }, [(region, name)]) := by
  simp [takeUp, h, hadd]

/-- Taking up a player changes nothing, or adds an unknown player to the table and its leaf. -/
theorem takeUp_cases (peer : Peer) (region : RegionPath) (name : EntityName) :
    peer.takeUp (region, name) = (peer, []) ∨
      peer.player? name = none ∧ ∃ octree, peer.octree.addName region name = .ok octree ∧
        peer.takeUp (region, name) =
          ({ peer with
              octree
              players := peer.players ++
                [RemotePlayer.discovered name region peer.config.windowSize] },
            [(region, name)]) := by
  cases hknown : peer.player? name with
  | some r => exact Or.inl (takeUp_of_isSome (by rw [hknown]; rfl))
  | none =>
      cases hadd : peer.octree.addName region name with
      | error => exact Or.inl (by simp [takeUp, hknown, hadd])
      | ok octree => exact Or.inr ⟨rfl, octree, rfl, takeUp_of_addName hknown hadd⟩

theorem Consistent.takeUp (h : peer.Consistent) {news : RegionPath × EntityName}
    (htracked : peer.octree.isTracked news.1 = true) (hforeign : news.2 ≠ peer.self.name) :
    (peer.takeUp news).1.Consistent := by
  obtain ⟨region, name⟩ := news
  rcases takeUp_cases peer region name with hsame | ⟨hunknown, octree, hadd, htaken⟩
  · rw [hsame]
    exact h
  rw [htaken]
  have hnew := player?_eq_none_iff.1 hunknown
  have hgeometry := Octree.geometry_addName hadd
  have hisLeaf := Octree.isLeaf_congr hgeometry
  have hkept := Octree.isTracked_addName hadd
  refine ⟨h.wellFormed.addName hadd, hgeometry.trans h.geometry, (hisLeaf _).trans h.leaf,
    ?_, ?_, ?_, ?_, ?_⟩
  · rw [List.map_append, List.nodup_append]
    refine ⟨h.nodup, by simp, ?_⟩
    intro a ha b hb
    obtain ⟨r, hr, rfl⟩ := List.mem_map.1 ha
    rw [show b = name from List.mem_singleton.1 hb]
    exact hnew r hr
  · refine List.forall_mem_append.2 ⟨h.foreign, List.forall_mem_singleton.2 hforeign⟩
  · refine List.forall_mem_append.2 ⟨fun r hr => ?_, List.forall_mem_singleton.2 ?_⟩
    · obtain ⟨p, hp, ht, hl⟩ := h.housed r hr
      exact ⟨p, hp, (hkept p).trans ht, (hisLeaf p).trans hl⟩
    · exact ⟨region, rfl, (hkept region).trans htracked,
        (hisLeaf region).trans (Octree.addName_eq_ok_iff.1 hadd).1⟩
  · intro p e
    rw [Octree.hasName_addName hadd, h.listed, or_assoc]
    refine or_congr_right ?_
    simp only [List.mem_append, List.mem_singleton, or_and_right, exists_or, exists_eq_left]
    refine or_congr_right ?_
    simp only [RemotePlayer.card, RemotePlayer.discovered, Prod.mk.injEq, Option.some.injEq]
    exact ⟨fun heq => ⟨heq.2.symm, heq.1.symm⟩, fun heq => ⟨heq.2.symm, heq.1.symm⟩⟩
  · exact List.forall_mem_append.2 ⟨h.alive, List.forall_mem_singleton.2 Location.noConfusion⟩

/-- Taking up a player changes neither what is tracked nor the own player. -/
theorem takeUp_frame (peer : Peer) (news : RegionPath × EntityName) :
    (peer.takeUp news).1.self = peer.self ∧
      ∀ p, (peer.takeUp news).1.octree.isTracked p = peer.octree.isTracked p := by
  rcases takeUp_cases peer news.1 news.2 with hsame | ⟨-, octree, hadd, htaken⟩
  · rw [hsame]
    exact ⟨rfl, fun _ => rfl⟩
  · rw [htaken]
    exact ⟨rfl, Octree.isTracked_addName hadd⟩

theorem Consistent.takeUpAll (h : peer.Consistent) {list : List (RegionPath × EntityName)}
    (hlist : ∀ news ∈ list, peer.octree.isTracked news.1 = true ∧ news.2 ≠ peer.self.name) :
    (peer.takeUpAll list).1.Consistent := by
  induction list generalizing peer with
  | nil => exact h
  | cons news rest ih =>
      obtain ⟨htracked, hforeign⟩ := hlist news List.mem_cons_self
      obtain ⟨hself, hkept⟩ := takeUp_frame peer news
      have hrest : ∀ other ∈ rest, (peer.takeUp news).1.octree.isTracked other.1 = true ∧
          other.2 ≠ (peer.takeUp news).1.self.name := by
        intro other hother
        rw [hkept, hself]
        exact hlist other (List.mem_cons_of_mem _ hother)
      exact ih (h.takeUp htracked hforeign) hrest

theorem Consistent.learn (h : peer.Consistent) (response : Response) :
    (peer.learn σ response).peer.Consistent := by
  unfold Peer.learn
  split
  · exact h
  · split
    · exact h
    · refine h.takeUpAll fun news hnews => ?_
      obtain ⟨hforeign, -, l, -, htracked, -, hregion, -⟩ := Discovery.of_mem_unknown hnews
      exact ⟨hregion ▸ htracked, hforeign⟩

/-! Polls and their answers. -/

/-- Polling changes no more than the notes that polls are out. -/
theorem pollAll_frame (w : Window) (lifetime : Nat) (players : List RemotePlayer) :
    (pollAll w lifetime players).1.map (fun r => { r with polled := true }) =
      players.map fun r => { r with polled := true } := by
  induction players with
  | nil => rfl
  | cons r players ih =>
      simp only [pollAll]
      split
      · rw [List.map_cons, List.map_cons, ih]
      · split
        · rfl
        · rw [List.map_cons, List.map_cons, ih]

theorem Consistent.polls (h : peer.Consistent) : peer.polls.peer.Consistent := by
  have hframe := pollAll_frame peer.window peer.config.positionTimeout.toNat peer.players
  refine h.congr rfl rfl rfl rfl ?_ ?_
  · have hcards := congrArg (List.map RemotePlayer.card) hframe
    rw [List.map_map, List.map_map] at hcards
    exact hcards
  · intro r hr
    have hmem := List.mem_map_of_mem (f := fun r => { r with polled := true }) hr
    obtain ⟨q, hq, heq⟩ := List.mem_map.1 (hframe ▸ hmem)
    have hlocation : q.location = r.location := (RemotePlayer.mk.inj heq).2.1
    rw [← hlocation]
    exact h.alive q hq

/-- The entry that an answer or a missed poll starts from. -/
theorem Consistent.unpolled (h : peer.Consistent) (hr : r ∈ peer.players) :
    (peer.setPlayer { r with polled := false }).Consistent ∧
      { r with polled := false } ∈ (peer.setPlayer { r with polled := false }).players := by
  refine ⟨h.setPlayer hr rfl (h.alive r hr), List.mem_map.2 ⟨r, hr, if_pos rfl⟩⟩

/-- Moving a name to a tracked leaf lists it there. -/
theorem moveName_of_isTracked {t : Octree} (name : EntityName) (old : RegionPath)
    (htracked : t.isTracked leaf = true) (hleaf : t.isLeaf leaf = true) :
    ∃ t', (t.removeName old name).addName leaf name = .ok t' ∧
      moveName t name (some old) leaf = (t', true) := by
  obtain ⟨t', hadd⟩ := Octree.exists_addName_of_move old name hleaf
  exact ⟨t', hadd, by simp [moveName, Octree.isTracked_removeName, htracked, hadd]⟩

theorem moveName_of_not_isTracked {t : Octree} {name : EntityName} {old : RegionPath}
    (htracked : ¬ t.isTracked leaf = true) :
    moveName t name (some old) leaf = (t.removeName old name, false) := by
  simp [moveName, Octree.isTracked_removeName, htracked]

theorem Consistent.accept (h : peer.Consistent) (hr : r ∈ peer.players)
    (hleaf : peer.octree.isLeaf leaf = true) (sequence : UInt32) (position : Point) :
    (peer.accept r sequence position leaf).1.Consistent := by
  unfold Peer.accept
  dsimp only
  split
  · exact h.setPlayer hr rfl Location.noConfusion
  · obtain ⟨old, hold, -, -⟩ := h.housed r hr
    rw [hold]
    by_cases htracked : peer.octree.isTracked leaf = true
    · obtain ⟨octree, hadd, hmove⟩ := moveName_of_isTracked r.name old htracked hleaf
      rw [hmove]
      exact h.rehouse hr hold htracked hadd rfl Location.noConfusion
    · rw [moveName_of_not_isTracked htracked]
      exact h.forget hr hold

theorem Consistent.apply (h : peer.Consistent) (hr : r ∈ peer.players) (sequence : UInt32)
    (payload : Payload) : (peer.apply r sequence payload).peer.Consistent := by
  cases payload with
  | reset goal reason =>
      unfold Peer.apply
      dsimp only
      split
      · exact h
      · exact h.setPlayer hr rfl (h.alive r hr)
  | position p =>
      unfold Peer.apply
      dsimp only
      split
      · exact h
      · exact h
      · split
        · exact h
        · next hleaf => exact h.accept hr (h.isLeaf_of_leaf? hleaf) sequence p

theorem Consistent.hear (h : peer.Consistent) (name : EntityName) (response : Response) :
    (peer.hear σ name response).peer.Consistent := by
  unfold Peer.hear
  dsimp only
  split
  · exact h
  · next r hfound =>
      obtain ⟨hunpolled, hr⟩ := h.unpolled (mem_of_player? hfound)
      split
      · exact hunpolled
      · exact hunpolled.apply hr _ _

theorem Consistent.miss (h : peer.Consistent) (name : EntityName) :
    (peer.miss name).peer.Consistent := by
  unfold Peer.miss
  split
  · exact h
  · next r hfound =>
      have hr := mem_of_player? hfound
      obtain rfl := name_of_player? hfound
      dsimp only
      split
      · exact (h.unpolled hr).1
      · split
        · exact h.setPlayer hr rfl (h.alive r hr)
        · obtain ⟨p, hp, -, -⟩ := h.housed r hr
          rw [hp]
          exact h.forget hr hp

theorem Consistent.tagRequests (h : peer.Consistent) : peer.tagRequests.peer.Consistent := by
  refine h.congr rfl rfl rfl rfl ?_ ?_
  · exact List.map_map
  · intro r hr
    obtain ⟨q, hq, rfl⟩ := List.mem_map.1 hr
    exact h.alive q hq

/-! Tracking. -/

theorem Consistent.track (h : peer.Consistent) (hok : peer.track leaf = .ok after) :
    after.Consistent := by
  obtain ⟨octree, tracked, htrack, rfl⟩ := exists_of_track hok
  have hgeometry : octree.geometry = peer.octree.geometry := by
    rw [(Octree.track_eq_ok_iff.1 htrack).2]
    rfl
  have hisLeaf := Octree.isLeaf_congr hgeometry
  refine ⟨h.wellFormed.track htrack, hgeometry.trans h.geometry, (hisLeaf _).trans h.leaf,
    h.nodup, h.foreign, ?_, ?_, h.alive⟩
  · intro r hr
    obtain ⟨p, hp, ht, hl⟩ := h.housed r hr
    exact ⟨p, hp, (Octree.isTracked_track htrack p).2 (Or.inl ht), (hisLeaf p).trans hl⟩
  · intro p e
    exact (Octree.hasName_track htrack p e).trans (h.listed p e)

/-- Names removed from one leaf after the other are gone from it, and from nowhere else. -/
theorem removeNames_frame {t : Octree} (ht : t.WellFormed) (leaf : RegionPath)
    (names : List EntityName) :
    (names.foldl (fun t name => t.removeName leaf name) t).WellFormed ∧
      (names.foldl (fun t name => t.removeName leaf name) t).geometry = t.geometry ∧
      (∀ p, (names.foldl (fun t name => t.removeName leaf name) t).isTracked p = t.isTracked p) ∧
      ∀ p e, (names.foldl (fun t name => t.removeName leaf name) t).hasName p e = true ↔
        t.hasName p e = true ∧ ¬ (p = leaf ∧ e ∈ names) := by
  induction names generalizing t with
  | nil => simp [ht]
  | cons name names ih =>
      obtain ⟨hwell, hgeometry, htracked, hnames⟩ := ih (ht.removeName leaf name)
      refine ⟨hwell, hgeometry.trans (Octree.geometry_removeName ..), fun p => ?_, fun p e => ?_⟩
      · exact (htracked p).trans (Octree.isTracked_removeName ..)
      · rw [List.foldl_cons, hnames, Octree.hasName_removeName ht, List.mem_cons]
        tauto

theorem Consistent.untrack (h : peer.Consistent) (leaf : RegionPath) :
    (peer.untrack leaf).1.Consistent := by
  have hevicted : ∀ {after : Peer}, after.octree = ((peer.players.filter
        (·.region == some leaf)).map (·.name)).foldl (fun t name => t.removeName leaf name)
        (peer.octree.untrack leaf) →
      after.players = peer.players.filter (fun r => !(r.region == some leaf)) →
      after.self = peer.self → after.geometry = peer.geometry → after.Consistent := by
    intro after hoctree hplayers hself hgeometry
    obtain ⟨hwell, hsame, htracked, hnames⟩ := removeNames_frame (h.wellFormed.untrack leaf) leaf
      ((peer.players.filter (·.region == some leaf)).map (·.name))
    refine h.evict (fun r => !(r.region == some leaf)) hwell
      (hsame.trans (Octree.geometry_untrack ..)) ?_ ?_ hplayers hoctree hself hgeometry
    · intro r hr hkeep p hp
      have hne : p ≠ leaf := by
        rintro rfl
        simp [hp] at hkeep
      have hiff := Octree.isTracked_untrack peer.octree leaf p
      rw [htracked, Bool.eq_iff_iff, hiff]
      exact and_iff_left hne
    · intro p e
      rw [hnames, Octree.hasName_untrack]
      refine and_congr_right fun _ => not_congr ?_
      simp only [List.mem_map, List.mem_filter, beq_iff_eq, Bool.not_eq_false',
        RemotePlayer.card, Prod.mk.injEq]
      constructor
      · rintro ⟨rfl, r, ⟨hr, hregion⟩, hname⟩
        exact ⟨r, hr, hregion, hname, hregion⟩
      · rintro ⟨r, hr, hregion, hname, hp⟩
        exact ⟨Option.some.inj (hp.symm.trans hregion), r, ⟨hr, hregion⟩, hname⟩
  unfold Peer.untrack
  split
  · rw [List.partition_eq_filter_filter]
    dsimp only
    split
    · exact hevicted rfl rfl rfl rfl
    · exact hevicted rfl rfl rfl rfl
  · exact h

/-- Every operation keeps the table and the octree in step. -/
theorem Consistent.step (h : peer.Consistent) (operation : Operation) :
    (peer.step σ operation).1.Consistent := by
  cases operation with
  | moveTo position =>
      simp only [Peer.step]
      split
      · next hok => exact h.moveTo hok
      · exact h
  | publish => exact h.publish
  | learn response => exact h.learn response
  | polls => exact h.polls
  | hear name response => exact h.hear name response
  | miss name => exact h.miss name
  | tagRequests => exact h.tagRequests
  | track leaf =>
      simp only [Peer.step]
      split
      · next hok => exact h.track hok
      · exact h
  | untrack leaf => exact h.untrack leaf
  | subscribe region id => exact h.congr rfl rfl rfl rfl rfl h.alive
  | releaseAll => exact h.congr rfl rfl rfl rfl rfl h.alive

theorem Reachable.consistent (h : peer.Reachable σ) : peer.Consistent :=
  h.induction (fun _ _ _ _ _ => Consistent.make) fun _ operation hpeer => hpeer.step operation

/-- Who is listed where, in the whole octree. -/
structure Membership (peer : Peer) : Prop where
  /-- The own player occurs once, in the leaf of its entry. -/
  own : peer.octree.places peer.self.name = [peer.self.region]
  ownLeaf : peer.self.region.depth = peer.geometry.depth
  /-- The table is keyed by the names of its entries. -/
  keyed : ∀ e r, peer.player? e = some r ↔ r ∈ peer.players ∧ r.name = e
  foreign : ∀ r ∈ peer.players, r.name ≠ peer.self.name
  /-- Each player of the table occurs once, in the leaf of its entry, and that is tracked. -/
  entry : ∀ r ∈ peer.players, ∃ p, r.region = some p ∧ peer.isTracked p = true ∧
    p.depth = peer.geometry.depth ∧ peer.octree.places r.name = [p]
  /-- Nobody else occurs. -/
  stranger : ∀ e, e ≠ peer.self.name → peer.player? e = none → peer.octree.places e = []
  alive : ∀ r ∈ peer.players, r.location ≠ .dropped

namespace Consistent

variable {e : EntityName} {p : RegionPath}

theorem depth_of_isLeaf (h : peer.Consistent) (hleaf : peer.octree.isLeaf p = true) :
    p.depth = peer.geometry.depth := by
  rw [← h.geometry]
  exact Octree.isLeaf_iff.1 hleaf

/-- The peer's own player stands in one place of the whole octree. -/
theorem places_self (h : peer.Consistent) :
    peer.octree.places peer.self.name = [peer.self.region] := by
  refine Octree.places_eq_singleton h.wellFormed fun p => ?_
  rw [h.listed]
  refine ⟨fun hin => hin.elim And.right fun ⟨r, hr, hcard⟩ => ?_, fun heq => Or.inl ⟨rfl, heq⟩⟩
  exact absurd (RemotePlayer.card_eq_iff.1 hcard).1 (h.foreign r hr)

/-- A player of the table stands in one place of the whole octree, the leaf of its entry. -/
theorem places_player (h : peer.Consistent) (hr : r ∈ peer.players) (hp : r.region = some p) :
    peer.octree.places r.name = [p] :=
  Octree.places_eq_singleton h.wellFormed (h.hasName_player hr hp)

/-- Nobody else stands anywhere. -/
theorem places_stranger (h : peer.Consistent) (hown : e ≠ peer.self.name)
    (hunknown : peer.player? e = none) : peer.octree.places e = [] := by
  refine Octree.places_eq_nil h.wellFormed fun p hp => ?_
  rcases (h.listed p e).1 hp with ⟨heq, -⟩ | ⟨r, hr, hcard⟩
  · exact hown heq
  · exact player?_eq_none_iff.1 hunknown r hr (RemotePlayer.card_eq_iff.1 hcard).1

theorem membership (h : peer.Consistent) : peer.Membership where
  own := h.places_self
  ownLeaf := h.depth_of_isLeaf h.leaf
  keyed _ _ := player?_eq_some_iff h.nodup
  foreign := h.foreign
  entry r hr := by
    obtain ⟨p, hp, ht, hl⟩ := h.housed r hr
    exact ⟨p, hp, ht, h.depth_of_isLeaf hl, h.places_player hr hp⟩
  stranger _ := h.places_stranger
  alive := h.alive

end Consistent

/-- From a new peer on, after any operations in any order, the octree lists the own player and the
players of the table, each once and in the leaf of its entry, and nobody else. -/
theorem membership_of_run {config : Config} {id : String} {position : Point} {secret : Bytes}
    {start : Peer} (h : make config id position secret = .ok (.ok start))
    (operations : List Operation) : (start.run σ operations).Membership :=
  (run_induction (fun _ operation hpeer => hpeer.step operation) (Consistent.make h)
    operations).membership

/-- A peer that publishes, tracks three leaves, learns of a player in each from one answer, polls them and
misses one, and leaves one of the leaves. It goes on with the players of the other two. -/
theorem membership_of_run_three_leaves : ∃ start operations,
    make { hub := "/hub", depth := 2, worldBits := 2 } "alice" ⟨.zero, .zero, .zero⟩ [] =
        .ok (.ok start) ∧
      let peer := start.run .sealing operations
      peer.Membership ∧ peer.octree.places ⟨"/hub", "alice"⟩ = [⟨[0, 0]⟩] ∧
        peer.players.map (fun r => (r.name, peer.octree.places r.name)) =
          [(⟨"/hub", "bob"⟩, [⟨[0, 0]⟩]), (⟨"/hub", "carol"⟩, [⟨[0, 1]⟩])] ∧
        peer.octree.places ⟨"/hub", "dave"⟩ = [] := by
  let content := Text.bytesOf "/hub:bob 0/0\n/hub:carol 0/1\n/hub:dave 0/2\n"
  let operations : List Operation := [.publish, .track ⟨[0, 0]⟩, .track ⟨[0, 1]⟩, .track ⟨[0, 2]⟩,
    .learn ⟨.root, content, 0, 0, Response.signable .root content 0 0, []⟩, .polls,
    .miss ⟨"/hub", "bob"⟩, .untrack ⟨[0, 2]⟩]
  let config : Config := { hub := "/hub", depth := 2, worldBits := 2 }
  have hmade : (made? config "alice" ⟨.zero, .zero, .zero⟩ []).any (fun start =>
      let peer := start.run .sealing operations
      decide (peer.octree.places ⟨"/hub", "alice"⟩ = [⟨[0, 0]⟩] ∧
        peer.players.map (fun r => (r.name, peer.octree.places r.name)) =
          [(⟨"/hub", "bob"⟩, [⟨[0, 0]⟩]), (⟨"/hub", "carol"⟩, [⟨[0, 1]⟩])] ∧
        peer.octree.places ⟨"/hub", "dave"⟩ = [])) = true := by
    decide +kernel
  obtain ⟨start, hstart, hlisted⟩ := exists_make hmade
  exact ⟨start, operations, hstart, membership_of_run hstart _, of_decide_eq_true hlisted⟩

end RegionSync.Peer
