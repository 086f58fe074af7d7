import RegionSync.Proofs.Discovery.Answer
import RegionSync.Proofs.Discovery.Query
import RegionSync.Proofs.Peer.Change

/-!
One discovery exchange. A peer asks about a leaf, and another that tracks it too answers unless the
digests agree; from the answer the first takes up the members that it does not know, in the order in
which the other lists them, and changes in nothing else.
-/

namespace RegionSync

namespace Octree

variable {t t' t'' : Octree} {p : RegionPath} {e : EntityName}
  {news others : List (RegionPath × EntityName)}

/-- The octree `t'` lists each of `news` in its leaf, in this order and after what `t` lists there;
nothing else differs. -/
structure Enlists (t t' : Octree) (news : List (RegionPath × EntityName)) : Prop where
  geometry : t'.geometry = t.geometry
  wellFormed : t'.WellFormed
  names : ∀ q, (t'.contentAt q).names.names =
    (t.contentAt q).names.names ++ (news.filter (·.1 == q)).map (·.2)
  tracked : ∀ q, t'.isTracked q = t.isTracked q
  others : ∀ q, (∀ m ∈ news, m.1 ≠ q) → t'.contentAt q = t.contentAt q
  nodes : ∀ q, (t'.lookup? q).isSome = (t.lookup? q).isSome

/-- The octree `t'` lists in the leaf `p` what `t` lists there and then `news`; nothing else
differs. -/
structure Enrols (t t' : Octree) (p : RegionPath) (news : List EntityName) : Prop where
  geometry : t'.geometry = t.geometry
  wellFormed : t'.WellFormed
  names : (t'.contentAt p).names.names = (t.contentAt p).names.names ++ news
  tracked : ∀ q, t'.isTracked q = t.isTracked q
  others : ∀ q, q ≠ p → t'.contentAt q = t.contentAt q
  nodes : ∀ q, (t'.lookup? q).isSome = (t.lookup? q).isSome

namespace Enlists

theorem refl (ht : t.WellFormed) : t.Enlists t [] where
  geometry := rfl
  wellFormed := ht
  names _ := (List.append_nil _).symm
  tracked _ := rfl
  others _ _ := rfl
  nodes _ := rfl

theorem trans (h : t.Enlists t' news) (h' : t'.Enlists t'' others) :
    t.Enlists t'' (news ++ others) where
  geometry := h'.geometry.trans h.geometry
  wellFormed := h'.wellFormed
  names q := by rw [h'.names, h.names, List.filter_append, List.map_append, List.append_assoc]
  tracked q := (h'.tracked q).trans (h.tracked q)
  others q hq := by
    obtain ⟨hnews, hothers⟩ := List.forall_mem_append.1 hq
    rw [h'.others q hothers, h.others q hnews]
  nodes q := (h'.nodes q).trans (h.nodes q)

theorem addName (ht : t.WellFormed) (h : t.addName p e = .ok t')
    (hnode : (t.lookup? p).isSome = true) (hnew : ¬ t.hasName p e = true) :
    t.Enlists t' [(p, e)] where
  geometry := geometry_addName h
  wellFormed := ht.addName h
  names q := by
    rw [contentAt_addName h]
    split
    · next heq =>
        subst heq
        rw [List.filter_singleton, beq_self_eq_true]
        exact NameSet.names_insert_of_not_mem fun hmem => hnew (hasName_iff.2 hmem)
    · next hne =>
        rw [List.filter_singleton, beq_eq_false_iff_ne.2 (Ne.symm hne)]
        exact (List.append_nil _).symm
  tracked := isTracked_addName h
  others q hq := by rw [contentAt_addName h, if_neg (hq _ (List.mem_singleton_self _)).symm]
  nodes := isSome_lookup?_addName h hnode

/-- Players that are all listed in one leaf. -/
theorem enrols {names : List EntityName} (h : t.Enlists t' (names.map (p, ·))) :
    t.Enrols t' p names where
  geometry := h.geometry
  wellFormed := h.wellFormed
  names := by simp [h.names, List.filter_map, Function.comp_def]
  tracked := h.tracked
  others q hq := h.others q (List.forall_mem_map.2 fun _ _ => hq.symm)
  nodes := h.nodes

end Enlists

end Octree

namespace Discovery

/-- What one listing of a tracked leaf brings: the names that are not there, in their order. -/
theorem unknown_singleton {t : Octree} {self : EntityName} {l : Listing}
    (htracked : t.isTracked l.region = true) (hleaf : t.isLeaf l.region = true)
    (hnodup : l.names.Nodup) : unknown t [l] self =
      (l.names.filter fun e => e != self && !t.hasName l.region e).map (l.region, ·) := by
  have hmentions : mentions t [l] = l.names.map (l.region, ·) := by
    simp [mentions, heeded, htracked, hleaf]
  rw [unknown_eq, hmentions, List.filter_map]
  apply firsts_eq_self
  rw [List.map_map]
  exact (List.map_id _).symm ▸ hnodup.filter _

end Discovery

namespace Peer

variable {σ : Scheme} {peer asker answerer : Peer} {leaf : RegionPath} {name : EntityName}

theorem player?_append_discovered (peer : Peer) (octree : Octree) (leaf : RegionPath)
    {e f : EntityName} (hne : e ≠ f) :
    ({ peer with
        octree
        players := peer.players ++ [RemotePlayer.discovered e leaf peer.config.windowSize] }
      : Peer).player? f = peer.player? f := by
  have hmiss : (e == f) = false := beq_eq_false_iff_ne.2 hne
  simp [player?, List.find?_append, RemotePlayer.discovered, hmiss]

/-- Of different players that their leaves do not list, the unknown ones are taken up, one after the
other. -/
theorem takeUpAll_eq (hwell : peer.octree.WellFormed) {list : List (RegionPath × EntityName)}
    (hnodup : (list.map (·.2)).Nodup)
    (hlist : ∀ m ∈ list, peer.octree.isLeaf m.1 = true ∧ (peer.octree.lookup? m.1).isSome = true ∧
      ¬ peer.octree.hasName m.1 m.2 = true) :
    ∃ octree, peer.takeUpAll list =
        ({ peer with
            octree
            players := peer.players ++ (list.filter fun m => (peer.player? m.2).isNone).map fun m =>
              RemotePlayer.discovered m.2 m.1 peer.config.windowSize },
          list.filter fun m => (peer.player? m.2).isNone) ∧
      peer.octree.Enlists octree (list.filter fun m => (peer.player? m.2).isNone) := by
  induction list generalizing peer with
  | nil =>
      refine ⟨peer.octree, ?_, .refl hwell⟩
      simp [takeUpAll]
  | cons m list ih =>
      obtain ⟨p, e⟩ := m
      obtain ⟨hnot, hnodup⟩ := List.nodup_cons.1 hnodup
      obtain ⟨⟨hleaf, hnode, he⟩, hlist⟩ := List.forall_mem_cons.1 hlist
      rw [takeUpAll]
      cases hknown : peer.player? e with
      | some r =>
          obtain ⟨octree, hall, henlists⟩ := ih hwell hnodup hlist
          have hdrop : ¬ (peer.player? e).isNone = true := by simp [hknown]
          refine ⟨octree, ?_, ?_⟩
          · rw [takeUp_of_isSome (by rw [hknown]; rfl), List.filter_cons, if_neg hdrop]
            simp only [hall, List.nil_append]
          · rw [List.filter_cons, if_neg hdrop]
            exact henlists
      | none =>
          obtain ⟨octree, hadd⟩ : ∃ octree, peer.octree.addName p e = .ok octree :=
            ⟨_, Octree.addName_eq_ok_iff.2 ⟨hleaf, rfl⟩⟩
          have hfirst := Octree.Enlists.addName hwell hadd hnode he
          have hisLeaf := Octree.isLeaf_congr hfirst.geometry
          -- The others are other players, so for them the peer with this one is as good as before.
          have hother : ∀ m ∈ list, e ≠ m.2 := fun m hm heq =>
            hnot (List.mem_map.2 ⟨m, hm, heq.symm⟩)
          obtain ⟨final, hall, henlists⟩ := @ih
            { peer with
              octree
              players := peer.players ++ [RemotePlayer.discovered e p peer.config.windowSize] }
            hfirst.wellFormed hnodup fun m hm => by
              obtain ⟨hleaf, hnode, hnew⟩ := hlist m hm
              refine ⟨(hisLeaf m.1).trans hleaf, (hfirst.nodes m.1).trans hnode, ?_⟩
              rw [Octree.hasName_addName hadd, not_or]
              exact ⟨hnew, fun hown => hother m hm hown.2.symm⟩
          have hsame := List.filter_congr fun m hm => congrArg Option.isNone
            (player?_append_discovered peer octree p (hother m hm))
          rw [hsame] at hall henlists
          have hkeep : (peer.player? e).isNone = true := by rw [hknown]; rfl
          refine ⟨final, ?_, ?_⟩
          · rw [takeUp_of_addName hknown hadd, List.filter_cons, if_pos hkeep]
            simp only [hall, List.map_cons, List.append_assoc, List.singleton_append]
          · rw [List.filter_cons, if_pos hkeep]
            exact hfirst.trans henlists

/-- Of names that a leaf does not list, the unknown ones are taken up, one after the other. -/
theorem takeUpAll_leaf (hwell : peer.octree.WellFormed) (hleaf : peer.octree.isLeaf leaf = true)
    (hnode : (peer.octree.lookup? leaf).isSome = true) {names : List EntityName}
    (hnodup : names.Nodup) (hnew : ∀ e ∈ names, ¬ peer.octree.hasName leaf e = true) :
    ∃ octree, peer.takeUpAll (names.map (leaf, ·)) =
        ({ peer with
            octree
            players := peer.players ++ (names.filter fun e => (peer.player? e).isNone).map
              (RemotePlayer.discovered · leaf peer.config.windowSize) },
          (names.filter fun e => (peer.player? e).isNone).map (leaf, ·)) ∧
      peer.octree.Enrols octree leaf (names.filter fun e => (peer.player? e).isNone) := by
  have hnodup' : ((names.map (leaf, ·)).map (·.2)).Nodup := by
    rw [List.map_map]
    exact (List.map_id _).symm ▸ hnodup
  obtain ⟨octree, hall, henlists⟩ := takeUpAll_eq hwell hnodup'
    (List.forall_mem_map.2 fun e he => ⟨hleaf, hnode, hnew e he⟩)
  have hfilter : (names.map (leaf, ·)).filter (fun m => (peer.player? m.2).isNone) =
      (names.filter fun e => (peer.player? e).isNone).map (leaf, ·) := List.filter_map
  rw [hfilter] at hall henlists
  rw [List.map_map] at hall
  exact ⟨octree, hall, henlists.enrols⟩

theorem exists_signed (peer : Peer) (name : Name) (content : Bytes) {freshness : Nat}
    (h : freshness < 2 ^ 64) (timestamp : UInt64) :
    ∃ response, peer.signed σ name content freshness timestamp = (some response, []) ∧
      σ.respond peer.secret name content freshness timestamp = .ok response ∧
      response.name = name ∧ response.content = content := by
  refine ⟨_, ?_, if_pos h, rfl, rfl⟩
  rw [signed, Scheme.respond, if_pos h]

theorem ofName_discoveryRequest (h : asker.broadcast = answerer.broadcast) (leaf : RegionPath) :
    Query.ofName answerer.broadcast (asker.discoveryRequest (.region leaf)).name =
      .ok ⟨leaf, .whole (Discovery.claim asker.octree leaf)⟩ := by
  rw [← h]
  exact Query.ofName_name trivial

theorem Consistent.namesIn_leaf (h : peer.Consistent) (hleaf : peer.octree.isLeaf leaf = true) :
    peer.namesIn leaf = (peer.octree.contentAt leaf).names.names := by
  rw [namesIn, Octree.namesIn?_leaf h.wellFormed hleaf]
  cases hlookup : peer.octree.lookup? leaf with
  | none =>
      have hnone : peer.octree.contentAt leaf = .none :=
        Octant.contentAt_of_lookup?_eq_none hlookup
      rw [hnone]
      rfl
  | some found => rfl

theorem Consistent.digest?_leaf (h : peer.Consistent) (hleaf : peer.octree.isLeaf leaf = true)
    (hnode : (peer.octree.lookup? leaf).isSome = true) :
    peer.octree.digest? leaf = some (Digest.ofNames (peer.namesIn leaf)) := by
  rw [h.namesIn_leaf hleaf, Octree.digest?_leaf hleaf, (h.wellFormed.fresh leaf).2]
  cases hlookup : peer.octree.lookup? leaf with
  | none => simp [hlookup] at hnode
  | some found => rfl

/-- In a reachable state every member of a leaf has a name that is read back from its text. -/
theorem Reachable.valid_of_hasName (h : peer.Reachable σ) {p : RegionPath} {e : EntityName}
    (he : peer.octree.hasName p e = true) : e.Valid := by
  obtain ⟨hself, hplayers⟩ := h.valid
  rcases (h.consistent.listed p e).1 he with ⟨rfl, -⟩ | ⟨r, hr, hcard⟩
  · exact hself
  · exact (RemotePlayer.card_eq_iff.1 hcard).1 ▸ hplayers r hr

/-- The root of a reachable peer's octree is no leaf. -/
theorem Reachable.isRoot_of_isLeaf (h : peer.Reachable σ) (hleaf : peer.octree.isLeaf leaf = true) :
    leaf.isRoot = false := by
  obtain ⟨-, hgeometry, -⟩ := h.made
  refine Octree.isRoot_of_isLeaf ?_ hleaf
  rw [h.consistent.geometry]
  unfold Config.geometry Geometry.make at hgeometry
  split at hgeometry
  · next g hmake =>
      cases hgeometry
      split at hmake
      · cases hmake
      · next hgood =>
          rw [not_or] at hgood
          rw [← Except.ok.inj hmake]
          exact Nat.pos_of_ne_zero hgood.1
  · cases hgeometry

/-- What taking up `news` in a leaf comes to: they stand there after the members that `peer` has
listed, each has an entry as just discovered, and nothing else has changed. -/
structure Teaches (peer : Peer) (outcome : Outcome (List EntityName)) (leaf : RegionPath)
    (news : List EntityName) : Prop where
  value : outcome.value = news
  names : outcome.peer.namesIn leaf = peer.namesIn leaf ++ news
  digest : outcome.peer.octree.digest? leaf = some (Digest.ofNames (peer.namesIn leaf ++ news))
  players : outcome.peer.players =
    peer.players ++ news.map (RemotePlayer.discovered · leaf peer.config.windowSize)
  tracked : ∀ p, outcome.peer.isTracked p = peer.isTracked p
  others : ∀ p, p ≠ leaf → outcome.peer.octree.contentAt p = peer.octree.contentAt p
  nodes : ∀ p, (outcome.peer.octree.lookup? p).isSome = (peer.octree.lookup? p).isSome
  rest : outcome.peer =
    { peer with octree := outcome.peer.octree, players := outcome.peer.players }

/-- Whom a consistent peer does not know, it does not list either. -/
theorem Consistent.unlisted (h : peer.Consistent) (p : RegionPath) (e : EntityName) :
    ((peer.player? e).isNone && (e != peer.self.name && !peer.octree.hasName p e)) =
      (e != peer.self.name && (peer.player? e).isNone) := by
  rw [Bool.eq_iff_iff]
  simp only [Bool.and_eq_true, bne_iff_ne, Bool.not_eq_true', Option.isNone_iff_eq_none]
  constructor
  · rintro ⟨hunknown, hforeign, -⟩
    exact ⟨hforeign, hunknown⟩
  · rintro ⟨hforeign, hunknown⟩
    refine ⟨hunknown, hforeign, ?_⟩
    rw [← Bool.not_eq_true, h.listed]
    rintro (⟨hown, -⟩ | ⟨r, hr, hcard⟩)
    · exact hforeign hown
    · exact player?_eq_none_iff.1 hunknown r hr (RemotePlayer.card_eq_iff.1 hcard).1

theorem Consistent.filter_unlisted (h : peer.Consistent) (leaf : RegionPath)
    (names : List EntityName) :
    (names.filter fun e => e != peer.self.name && !peer.octree.hasName leaf e).filter
        (fun e => (peer.player? e).isNone) =
      names.filter fun e => e != peer.self.name && (peer.player? e).isNone := by
  rw [List.filter_filter]
  exact List.filter_congr fun e _ => h.unlisted leaf e

/-- A trusted answer that can be read has its news taken up. -/
theorem learn_of_ofBody (peer : Peer) {response : Response} {listings : List Listing}
    (hcheck : σ.check response = .ok ()) (hbody : Listing.ofBody response.content = .ok listings) :
    (peer.learn σ response).peer =
        (peer.takeUpAll (Discovery.unknown peer.octree listings peer.self.name)).1 ∧
      (peer.learn σ response).value =
        (peer.takeUpAll (Discovery.unknown peer.octree listings peer.self.name)).2.map (·.2) := by
  have htrust : distrust σ response = none := by rw [distrust, hcheck]
  unfold learn
  rw [htrust]
  constructor
  · simp only [hbody]
  · simp only [hbody]

/-- A trusted answer about one tracked leaf teaches the players in it that are not known yet. -/
theorem Consistent.teaches (h : peer.Consistent) {response : Response} {names : List EntityName}
    (hcheck : σ.check response = .ok ()) (hcontent : response.content = Listing.body [⟨leaf, names⟩])
    (hvalid : ∀ e ∈ names, e.Valid) (hnodup : names.Nodup) (hroot : leaf.isRoot = false)
    (hleaf : peer.octree.isLeaf leaf = true) (htracked : peer.octree.isTracked leaf = true) :
    Teaches peer (peer.learn σ response) leaf
      (names.filter fun e => e != peer.self.name && (peer.player? e).isNone) := by
  have hbody : Listing.ofBody response.content = .ok [⟨leaf, names⟩] := by
    have hlisting : ∀ l ∈ [(⟨leaf, names⟩ : Listing)], l.Valid := List.forall_mem_singleton.2 hvalid
    have hspeaking : Listing.speaking [⟨leaf, names⟩] = [⟨leaf, names⟩] := by
      simp [Listing.speaking, hroot]
    rw [hcontent, Listing.ofBody_body hlisting, hspeaking]
  have hnode := Octree.isSome_lookup?_of_isTracked htracked
  have hunlisted : ∀ e ∈ names.filter (fun e => e != peer.self.name && !peer.octree.hasName leaf e),
      ¬ peer.octree.hasName leaf e = true := by
    intro e he
    have hkept := (List.mem_filter.1 he).2
    rw [Bool.and_eq_true, Bool.not_eq_true'] at hkept
    simp [hkept.2]
  obtain ⟨octree, hall, henrols⟩ :=
    takeUpAll_leaf h.wellFormed hleaf hnode (hnodup.filter _) hunlisted
  rw [h.filter_unlisted] at hall henrols
  have hunknown : Discovery.unknown peer.octree [⟨leaf, names⟩] peer.self.name = _ :=
    Discovery.unknown_singleton htracked hleaf hnodup
  obtain ⟨hpeer, hvalue⟩ := learn_of_ofBody peer hcheck hbody
  rw [hunknown, hall] at hpeer hvalue
  have hafter := h.learn (σ := σ) response
  have hleaf' : (peer.learn σ response).peer.octree.isLeaf leaf = true := by
    rw [hpeer, Octree.isLeaf_congr henrols.geometry]
    exact hleaf
  have hnames : (peer.learn σ response).peer.namesIn leaf = peer.namesIn leaf ++
      names.filter fun e => e != peer.self.name && (peer.player? e).isNone := by
    rw [hafter.namesIn_leaf hleaf', h.namesIn_leaf hleaf, hpeer]
    exact henrols.names
  refine ⟨?_, hnames, ?_, ?_, ?_, ?_, ?_, ?_⟩
  · rw [hvalue, List.map_map]
    exact List.map_id _
  · rw [← hnames]
    refine hafter.digest?_leaf hleaf' ?_
    rw [hpeer, henrols.nodes]
    exact hnode
  · rw [hpeer]
  · intro p
    rw [hpeer]
    exact henrols.tracked p
  · intro p hp
    rw [hpeer]
    exact henrols.others p hp
  · intro p
    rw [hpeer]
    exact henrols.nodes p
  · rw [hpeer]

/-- A request of a reachable peer about a leaf that it tracks, answered by another that tracks it
too: nothing is said if the digests agree, and otherwise the first takes up exactly the members of
the other that are news to it, in the other's order. Answering changes no state. -/
theorem exchange_teaches (hσ : σ.Sound) (hasker : asker.Reachable σ)
    (hanswerer : answerer.Reachable σ) (hgeometry : asker.geometry = answerer.geometry)
    (hbroadcast : asker.broadcast = answerer.broadcast)
    (hleaf : leaf.depth = asker.geometry.depth) (htracked : asker.isTracked leaf = true)
    (htracked' : answerer.isTracked leaf = true)
    (hfresh : answerer.config.digestFreshnessMs < 2 ^ 64) (timestamp : UInt64) :
    let name := (asker.discoveryRequest (.region leaf)).name
    (asker.octree.digest? leaf = answerer.octree.digest? leaf →
      answerer.answerDiscovery σ name timestamp = (none, [])) ∧
    (asker.octree.digest? leaf ≠ answerer.octree.digest? leaf →
      ∃ response, answerer.answerDiscovery σ name timestamp = (some response, []) ∧
        Teaches asker (asker.learn σ response) leaf ((answerer.namesIn leaf).filter fun e =>
          e != asker.self.name && (asker.player? e).isNone)) := by
  intro name
  have hisLeaf : asker.octree.isLeaf leaf = true := by
    rw [Octree.isLeaf, hasker.consistent.geometry, hleaf, beq_self_eq_true]
  have hisLeaf' : answerer.octree.isLeaf leaf = true := by
    rw [Octree.isLeaf, hanswerer.consistent.geometry, ← hgeometry, hleaf, beq_self_eq_true]
  have hanswer := Discovery.answer_leaf hanswerer.consistent.wellFormed hisLeaf' htracked'
    (Discovery.claim asker.octree leaf)
  rw [Discovery.claim_of_isTracked htracked, Discovery.claim_of_isTracked htracked', ne_eq,
    Option.some.injEq]
  unfold answerDiscovery
  rw [ofName_discoveryRequest hbroadcast]
  constructor
  · intro hsame
    rw [if_pos hsame.symm] at hanswer
    simp only [hanswer]
    rfl
  · intro hdiffer
    rw [if_neg (Ne.symm hdiffer)] at hanswer
    simp only [hanswer]
    obtain ⟨response, hsigned, hrespond, -, hcontent⟩ :=
      exists_signed (σ := σ) answerer name (Listing.body [⟨leaf, _⟩]) hfresh timestamp
    refine ⟨response, hsigned, ?_⟩
    rw [hanswerer.consistent.namesIn_leaf hisLeaf']
    exact hasker.consistent.teaches (Scheme.check_respond hσ hrespond) hcontent
      (fun e he => hanswerer.valid_of_hasName (Octree.hasName_iff.2 he))
      (hanswerer.consistent.wellFormed.fresh leaf).1 (hasker.isRoot_of_isLeaf hisLeaf) hisLeaf
      htracked

/-- Two peers in the same leaf: the first learns of the other's player, by name. -/
theorem exchange_teaches_bob :
    ∃ (asker answerer : Peer) (response : Response),
      asker.Reachable .sealing ∧ answerer.Reachable .sealing ∧
      answerer.answerDiscovery .sealing (asker.discoveryRequest (.region ⟨[0, 0]⟩)).name 0 =
        (some response, []) ∧
      Teaches asker (asker.learn .sealing response) ⟨[0, 0]⟩ [⟨"/hub", "bob"⟩] := by
  let config : Config := { hub := "/hub", depth := 2, worldBits := 2 }
  let leaf : RegionPath := ⟨[0, 0]⟩
  have hmade : (made? config "alice" ⟨.zero, .zero, .zero⟩ []).any (fun alice =>
      (made? config "bob" ⟨.zero, .zero, .zero⟩ []).any fun bob =>
        let asker := alice.run .sealing [.track leaf]
        let answerer := bob.run .sealing [.track leaf]
        decide (asker.geometry = answerer.geometry ∧ asker.broadcast = answerer.broadcast ∧
          leaf.depth = asker.geometry.depth ∧ asker.isTracked leaf = true ∧
          answerer.isTracked leaf = true ∧ answerer.config.digestFreshnessMs < 2 ^ 64 ∧
          asker.octree.digest? leaf ≠ answerer.octree.digest? leaf ∧
          ((answerer.namesIn leaf).filter fun e =>
            e != asker.self.name && (asker.player? e).isNone) = [⟨"/hub", "bob"⟩])) = true := by
    decide +kernel
  obtain ⟨alice, halice, hpair⟩ := exists_make hmade
  obtain ⟨bob, hbob, hall⟩ := exists_make hpair
  obtain ⟨hgeometry, hbroadcast, hleaf, htracked, htracked', hfresh, hdiffer, hnews⟩ :=
    of_decide_eq_true hall
  have hreach : (alice.run .sealing [.track leaf]).Reachable .sealing :=
    ⟨_, _, _, _, _, _, halice, rfl⟩
  have hreach' : (bob.run .sealing [.track leaf]).Reachable .sealing :=
    ⟨_, _, _, _, _, _, hbob, rfl⟩
  obtain ⟨response, hanswer, hteaches⟩ := (exchange_teaches Scheme.sound_sealing hreach hreach'
    hgeometry hbroadcast hleaf htracked htracked' hfresh 0).2 hdiffer
  rw [hnews] at hteaches
  exact ⟨_, _, response, hreach, hreach', hanswer, hteaches⟩

end Peer

end RegionSync
