import RegionSync.Proofs.Peer.Exchange

/-!
What a discovery answer teaches. One that cannot be trusted or read teaches nothing at all. Of any
other a peer takes up each player that it does not know and that a listing of a tracked leaf names,
in the leaf of the first such listing; then the answer has nothing left to teach.
-/

namespace RegionSync.Peer

open Discovery (firsts heeded mentions)

variable {σ : Scheme} {peer : Peer} {response : Response} {listings : List Listing}
  {outcome : Outcome (List EntityName)} {list : List (RegionPath × EntityName)}

/-- The players that listings of tracked leaves name and that the peer does not know, in the order
of their first mentions and each with the leaf of that. -/
def news (peer : Peer) (listings : List Listing) : List (RegionPath × EntityName) :=
  firsts ((mentions peer.octree listings).filter fun m =>
    m.2 != peer.self.name && (peer.player? m.2).isNone)

/-- The outcome of taking up what is news in the listings. -/
structure Learns (peer : Peer) (listings : List Listing) (outcome : Outcome (List EntityName)) :
    Prop where
  value : outcome.value = (peer.news listings).map (·.2)
  exact : ∀ e, e ∈ outcome.value ↔ e ≠ peer.self.name ∧ peer.player? e = none ∧
    ∃ l ∈ listings, peer.isTracked l.region = true ∧ peer.octree.isLeaf l.region = true ∧
      e ∈ l.names
  once : outcome.value.Nodup
  /-- The leaf is that of the first listing that counts and names the player. -/
  first : ∀ m ∈ peer.news listings, ∃ l, l.region = m.1 ∧
    (heeded peer.octree listings).find? (fun l => l.names.contains m.2) = some l
  players : outcome.peer.players = peer.players ++ (peer.news listings).map fun m =>
    RemotePlayer.discovered m.2 m.1 peer.config.windowSize
  /-- In each leaf the news stand last, in their order. -/
  names : ∀ p, (outcome.peer.octree.contentAt p).names.names =
    (peer.octree.contentAt p).names.names ++
      ((peer.news listings).filter (·.1 == p)).map (·.2)
  others : ∀ p, (∀ m ∈ peer.news listings, m.1 ≠ p) →
    outcome.peer.octree.contentAt p = peer.octree.contentAt p
  tracked : ∀ p, outcome.peer.isTracked p = peer.isTracked p
  geometry : outcome.peer.octree.geometry = peer.octree.geometry
  rest : outcome.peer =
    { peer with octree := outcome.peer.octree, players := outcome.peer.players }

/-! What is news. -/

theorem Consistent.news_eq (h : peer.Consistent) (listings : List Listing) :
    (Discovery.unknown peer.octree listings peer.self.name).filter
        (fun m => (peer.player? m.2).isNone) = peer.news listings := by
  rw [Discovery.unknown_eq, Discovery.filter_firsts fun e => (peer.player? e).isNone,
    List.filter_filter, news]
  congr 1
  exact List.filter_congr fun m _ => h.unlisted m.1 m.2

theorem mem_news_names {e : EntityName} : e ∈ (peer.news listings).map (·.2) ↔
    e ≠ peer.self.name ∧ peer.player? e = none ∧ ∃ l ∈ listings,
      peer.isTracked l.region = true ∧ peer.octree.isLeaf l.region = true ∧ e ∈ l.names := by
  have hkept : ∀ m : RegionPath × EntityName,
      (m.2 != peer.self.name && (peer.player? m.2).isNone) = true ↔
        m.2 ≠ peer.self.name ∧ peer.player? m.2 = none := by
    intro m
    rw [Bool.and_eq_true, bne_iff_ne, Option.isNone_iff_eq_none]
  constructor
  · intro he
    obtain ⟨m, hm, rfl⟩ := List.mem_map.1 he
    obtain ⟨hmention, hfresh⟩ := List.mem_filter.1 (Discovery.mem_of_mem_firsts hm)
    obtain ⟨l, hl, htracked, hleaf, -, hname⟩ := Discovery.mem_mentions_iff.1 hmention
    obtain ⟨hforeign, hunknown⟩ := (hkept m).1 hfresh
    exact ⟨hforeign, hunknown, l, hl, htracked, hleaf, hname⟩
  · rintro ⟨hforeign, hunknown, l, hl, htracked, hleaf, hname⟩
    have hmention : (l.region, e) ∈ (mentions peer.octree listings).filter fun m =>
        m.2 != peer.self.name && (peer.player? m.2).isNone :=
      List.mem_filter.2 ⟨Discovery.mem_mentions_iff.2 ⟨l, hl, htracked, hleaf, rfl, hname⟩,
        (hkept (l.region, e)).2 ⟨hforeign, hunknown⟩⟩
    obtain ⟨p, hp⟩ := Discovery.exists_mem_firsts hmention
    exact List.mem_map.2 ⟨_, hp, rfl⟩

/-- News stand where they are first named, whoever else is named there. -/
theorem first_of_mem_news {m : RegionPath × EntityName} (hm : m ∈ peer.news listings) :
    ∃ l, l.region = m.1 ∧
      (heeded peer.octree listings).find? (fun l => l.names.contains m.2) = some l := by
  rw [news, ← Discovery.filter_firsts fun e => e != peer.self.name && (peer.player? e).isNone] at hm
  have hfirst := Discovery.mem_firsts_iff.1 (List.mem_filter.1 hm).1
  rw [Discovery.find?_mentions] at hfirst
  obtain ⟨l, hl, heq⟩ := Option.map_eq_some_iff.1 hfirst
  exact ⟨l, congrArg Prod.fst heq, hl⟩

/-! What becomes of the news. -/

/-- Who is known is not taken up. -/
theorem takeUpAll_of_known (h : ∀ m ∈ list, (peer.player? m.2).isSome = true) :
    peer.takeUpAll list = (peer, []) := by
  induction list with
  | nil => rfl
  | cons m list ih =>
      obtain ⟨hm, hlist⟩ := List.forall_mem_cons.1 h
      rw [takeUpAll, takeUp_of_isSome hm]
      dsimp only
      rw [ih hlist]
      rfl

theorem Consistent.learns (h : peer.Consistent) (hcheck : σ.check response = .ok ())
    (hbody : Listing.ofBody response.content = .ok listings) :
    Learns peer listings (peer.learn σ response) := by
  have hnodup : ((Discovery.unknown peer.octree listings peer.self.name).map (·.2)).Nodup := by
    rw [Discovery.unknown_eq]
    exact Discovery.nodup_firsts _
  obtain ⟨octree, hall, henlists⟩ := takeUpAll_eq h.wellFormed hnodup fun m hm => by
    obtain ⟨-, hunlisted, l, -, htracked, hleaf, hregion, -⟩ := Discovery.of_mem_unknown hm
    rw [hregion] at htracked hleaf
    exact ⟨hleaf, Octree.isSome_lookup?_of_isTracked htracked, hunlisted⟩
  rw [h.news_eq] at hall henlists
  obtain ⟨hpeer, hvalue⟩ := learn_of_ofBody peer hcheck hbody
  rw [hall] at hpeer hvalue
  refine ⟨hvalue, fun e => ?_, ?_, fun m => first_of_mem_news, ?_, fun p => ?_, fun p hp => ?_,
    fun p => ?_, ?_, ?_⟩
  · rw [hvalue]
    exact mem_news_names
  · rw [hvalue]
    exact Discovery.nodup_firsts _
  · rw [hpeer]
  · rw [hpeer]
    exact henlists.names p
  · rw [hpeer]
    exact henlists.others p hp
  · rw [hpeer]
    exact henlists.tracked p
  · rw [hpeer]
    exact henlists.geometry
  · rw [hpeer]

/-- Once learned, whoever counts in the listings is known, but for the peer's own player. -/
theorem Learns.known (h : Learns peer listings outcome) {e : EntityName} {l : Listing}
    (hl : l ∈ listings) (htracked : peer.isTracked l.region = true)
    (hleaf : peer.octree.isLeaf l.region = true) (he : e ∈ l.names)
    (hforeign : e ≠ peer.self.name) : (outcome.peer.player? e).isSome = true := by
  rw [isSome_player?_iff, h.players, List.map_append, List.mem_append, List.map_map,
    ← isSome_player?_iff]
  cases hknown : peer.player? e with
  | some r => exact Or.inl rfl
  | none =>
      right
      have hnew := (h.exact e).2 ⟨hforeign, hknown, l, hl, htracked, hleaf, he⟩
      rw [h.value] at hnew
      exact hnew

/-- The same listings teach nothing once more. -/
theorem Learns.again (h : Learns peer listings outcome) (hcheck : σ.check response = .ok ())
    (hbody : Listing.ofBody response.content = .ok listings) :
    (outcome.peer.learn σ response).value = [] ∧
      (outcome.peer.learn σ response).peer = outcome.peer := by
  have hself : outcome.peer.self = peer.self := by rw [h.rest]
  have hknown : ∀ m ∈ Discovery.unknown outcome.peer.octree listings outcome.peer.self.name,
      (outcome.peer.player? m.2).isSome = true := by
    intro m hm
    obtain ⟨hforeign, -, l, hl, htracked, hleaf, -, he⟩ := Discovery.of_mem_unknown hm
    rw [Octree.isLeaf_congr h.geometry] at hleaf
    exact h.known hl ((h.tracked l.region).symm.trans htracked) hleaf he (hself ▸ hforeign)
  obtain ⟨hpeer, hvalue⟩ := learn_of_ofBody outcome.peer hcheck hbody
  rw [takeUpAll_of_known hknown] at hpeer hvalue
  exact ⟨hvalue, hpeer⟩

theorem learn_of_refused (peer : Peer)
    (h : σ.check response ≠ .ok () ∨ Listing.Unreadable response.content) :
    (peer.learn σ response).value = [] ∧ (peer.learn σ response).peer = peer := by
  unfold learn
  split
  · exact ⟨rfl, rfl⟩
  · next htrust =>
      split
      · exact ⟨rfl, rfl⟩
      · next hbody =>
          rcases h with h | h
          · unfold distrust at htrust
            split at htrust
            · next hcheck => exact absurd hcheck h
            · cases htrust
          · exact absurd hbody (Listing.unreadable_iff.1 h _)

/-- An answer is refused, or it can be read and teaches. -/
theorem Consistent.learn_cases (h : peer.Consistent) (response : Response) :
    (σ.check response ≠ .ok () ∨ Listing.Unreadable response.content) ∨
      σ.check response = .ok () ∧ ∃ listings, Listing.ofBody response.content = .ok listings ∧
        Learns peer listings (peer.learn σ response) := by
  by_cases hcheck : σ.check response = .ok ()
  · cases hbody : Listing.ofBody response.content with
    | error fault =>
        refine Or.inl (Or.inr (Listing.unreadable_iff.2 fun listings => ?_))
        rw [hbody]
        exact nofun
    | ok listings => exact Or.inr ⟨hcheck, listings, rfl, h.learns hcheck hbody⟩
  · exact Or.inl (Or.inl hcheck)

/-- A discovery answer teaches all of its news or nothing, and nothing the second time: in every
reachable state, one that does not verify or has an unreadable line changes nothing, and any other
adds exactly the unknown players of its listings of tracked leaves, each where it is named first. -/
theorem learn_exact (hpeer : peer.Reachable σ) (response : Response) :
    let outcome := peer.learn σ response
    (σ.check response ≠ .ok () ∨ Listing.Unreadable response.content →
      outcome.value = [] ∧ outcome.peer = peer) ∧
    (σ.check response = .ok () → ¬ Listing.Unreadable response.content →
      ∃ listings, Listing.ofBody response.content = .ok listings ∧ Learns peer listings outcome) ∧
    (outcome.peer.learn σ response).value = [] ∧
      (outcome.peer.learn σ response).peer = outcome.peer := by
  intro outcome
  rcases hpeer.consistent.learn_cases (σ := σ) response with
    hrefused | ⟨hcheck, listings, hbody, hlearns⟩
  · refine ⟨fun _ => learn_of_refused peer hrefused, fun hcheck hread => ?_,
      learn_of_refused outcome.peer hrefused⟩
    exact absurd hrefused (not_or.2 ⟨not_not.2 hcheck, hread⟩)
  · refine ⟨fun hrefused => ?_, fun _ _ => ⟨listings, hbody, hlearns⟩, hlearns.again hcheck hbody⟩
    rcases hrefused with hbad | hbad
    · exact absurd hcheck hbad
    · exact absurd hbody (Listing.unreadable_iff.1 hbad listings)

/-- An answer names the peer itself, a player that is known, one in a leaf that is not tracked, and
players several times and in several leaves; two of them are news. -/
theorem learn_exact_bob_carol : ∃ (peer : Peer) (response : Response) (listings : List Listing),
    peer.Reachable .sealing ∧ Learns peer listings (peer.learn .sealing response) ∧
      listings.map (·.region) = [⟨[4, 4]⟩, ⟨[0, 0]⟩, ⟨[0, 4]⟩] ∧
      peer.news listings =
        [(⟨[0, 0]⟩, ⟨"/hub", "bob"⟩), (⟨[0, 4]⟩, ⟨"/hub", "carol"⟩)] ∧
      (peer.learn .sealing response).value = [⟨"/hub", "bob"⟩, ⟨"/hub", "carol"⟩] ∧
      ((peer.learn .sealing response).peer.learn .sealing response).value = [] := by
  let config : Config := { hub := "/hub", depth := 2, worldBits := 2 }
  let sealed (content : String) : Response :=
    ⟨.root, Text.bytesOf content, 0, 0, Response.signable .root (Text.bytesOf content) 0 0, []⟩
  let operations : List Operation :=
    [.track ⟨[0, 0]⟩, .track ⟨[0, 4]⟩, .learn (sealed "/hub:dave 0/0\n")]
  let response := sealed ("/hub:carol 4/4\n/hub:alice /hub:bob /hub:bob 0/0\n" ++
    "/hub:dave /hub:carol /hub:bob /hub:carol 0/4\n")
  let bob : EntityName := ⟨"/hub", "bob"⟩
  let carol : EntityName := ⟨"/hub", "carol"⟩
  let listings : List Listing := [⟨⟨[4, 4]⟩, [carol]⟩, ⟨⟨[0, 0]⟩, [⟨"/hub", "alice"⟩, bob, bob]⟩,
    ⟨⟨[0, 4]⟩, [⟨"/hub", "dave"⟩, carol, bob, carol]⟩]
  have hmade : (made? config "alice" ⟨.zero, .zero, .zero⟩ []).any (fun start => decide
      ((start.run .sealing operations).news listings = [(⟨[0, 0]⟩, bob), (⟨[0, 4]⟩, carol)])) =
        true := by
    decide +kernel
  have hbody : Listing.ofBody response.content = .ok listings := by decide +kernel
  have hcheck : Scheme.check .sealing response = .ok () := by decide +kernel
  obtain ⟨start, hstart, hreached⟩ := exists_make hmade
  have hnews := of_decide_eq_true hreached
  have hpeer : (start.run .sealing operations).Reachable .sealing :=
    ⟨config, _, _, _, start, operations, hstart, rfl⟩
  obtain ⟨-, hlearns, hagain, -⟩ := learn_exact hpeer response
  obtain ⟨read, hread, hlearns⟩ := hlearns hcheck fun h => Listing.unreadable_iff.1 h listings hbody
  obtain rfl : listings = read := Except.ok.inj (hbody.symm.trans hread)
  refine ⟨_, response, listings, hpeer, hlearns, rfl, hnews, ?_, hagain⟩
  rw [hlearns.value, hnews]
  rfl

end RegionSync.Peer
