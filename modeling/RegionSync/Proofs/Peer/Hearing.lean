import RegionSync.Proofs.Peer.Faults
import RegionSync.Proofs.Peer.Stays

/-!
What a position answer changes. One that is of no use ends the wait for it and does nothing else; a
reset moves the number of its player as well; a position that is accepted is noted in the entry, and
its player then stands in the leaf of the position, or is forgotten if that leaf is not tracked.
Whatever an answer says, it touches only its player: the entry, and where the player is listed.
-/

namespace RegionSync

/-- The name is that of an answer about the player under this number: the name of the player's
positions, and one component that reads as the number. -/
def EntityName.Numbers (e : EntityName) (s : UInt32) (name : Name) : Prop :=
  ∃ component, name = ⟨e.positionName.components ++ [component]⟩ ∧
    Text.readUInt32? component.toList = some s

theorem answerSequence_eq_ok_iff {e : EntityName} {s : UInt32} {name : Name} :
    answerSequence e.positionName name = .ok s ↔ e.Numbers s name := by
  unfold answerSequence
  constructor
  · intro h
    split at h
    · next component hcomponent =>
        split at h
        · next hread =>
            cases h
            exact ⟨component, Name.rest?_eq_some_iff.1 hcomponent, hread⟩
        · cases h
    · cases h
  · rintro ⟨component, hname, hread⟩
    rw [Name.rest?_eq_some_iff.2 hname]
    dsimp only
    rw [hread]

namespace Octree

variable {t t' : Octree} {e : EntityName} {old leaf : RegionPath}

/-- The octree `t'` lists the player last in `leaf` and no longer in `old`; otherwise it lists
everybody as `t` does. -/
structure Moves (t t' : Octree) (e : EntityName) (old leaf : RegionPath) : Prop where
  left : (t'.contentAt old).names.names = (t.contentAt old).names.names.erase e
  joined : (t'.contentAt leaf).names.names = (t.contentAt leaf).names.names ++ [e]
  others : ∀ p, p ≠ old → p ≠ leaf → t'.contentAt p = t.contentAt p

/-- The octree `t'` lists the player nowhere, and everybody else as `t` does. -/
structure Loses (t t' : Octree) (e : EntityName) (old : RegionPath) : Prop where
  left : (t'.contentAt old).names.names = (t.contentAt old).names.names.erase e
  gone : ∀ p, ¬ t'.hasName p e = true
  others : ∀ p, p ≠ old → t'.contentAt p = t.contentAt p

theorem moves_of_addName (hne : old ≠ leaf) (hnew : ¬ t.hasName leaf e = true)
    (hadd : (t.removeName old e).addName leaf e = .ok t') : t.Moves t' e old leaf where
  left := by
    rw [contentAt_addName hadd, if_neg hne, contentAt_removeName, if_pos rfl]
    rfl
  joined := by
    rw [contentAt_addName hadd, if_pos rfl, contentAt_removeName, if_neg hne.symm]
    exact NameSet.names_insert_of_not_mem fun hmem => hnew (hasName_iff.2 hmem)
  others p hold hleaf := by
    rw [contentAt_addName hadd, if_neg hleaf, contentAt_removeName, if_neg hold]

theorem loses_of_removeName (ht : t.WellFormed) (honly : ∀ p, t.hasName p e = true ↔ p = old) :
    t.Loses (t.removeName old e) e old where
  left := by
    rw [contentAt_removeName, if_pos rfl]
    rfl
  gone p hp := by
    rw [hasName_removeName ht, honly] at hp
    exact hp.2 ⟨hp.1, rfl⟩
  others p hold := by
    rw [contentAt_removeName, if_neg hold]

end Octree

namespace Peer

variable {σ : Scheme} {peer after : Peer} {e : EntityName} {response : Response} {r : RemotePlayer}
  {s goal : UInt32} {p : Point} {leaf : RegionPath} {payload : Payload}

/-- An answer about the player of an entry comes to nothing: it cannot be trusted or read, or has a
position that is not newer or not of the world. -/
inductive Useless (σ : Scheme) (peer : Peer) (r : RemotePlayer) (response : Response) : Prop
  | untrusted (h : σ.check response ≠ .ok ())
  | misnamed (h : ∀ s, ¬ r.name.Numbers s response.name)
  | malformed (h : ∀ payload, Payload.ofBytes response.content ≠ .ok payload)
  | stale (s : UInt32) (p : Point) (hname : r.name.Numbers s response.name)
      (hread : Payload.ofBytes response.content = .ok (.position p))
      (h : peer.window.isNewer r.sequence s ≠ .ok true)
  | outside (p : Point) (hread : Payload.ofBytes response.content = .ok (.position p))
      (h : ¬ peer.geometry.inWorld p = true)

/-- The answer about the player can be trusted and read, and resets its number. -/
def Resets (σ : Scheme) (e : EntityName) (response : Response) (goal : UInt32) : Prop :=
  σ.check response = .ok () ∧ (∃ s, e.Numbers s response.name) ∧
    ∃ reason, Payload.ofBytes response.content = .ok (.reset goal reason)

/-- But for what the leaves list, the peers differ at most in the entry of one player. -/
structure Touches (e : EntityName) (peer after : Peer) : Prop where
  rest : after = { peer with players := after.players, octree := after.octree }
  others : after.players.filter (·.name != e) = peer.players.filter (·.name != e)
  geometry : after.octree.geometry = peer.octree.geometry
  tracked : ∀ p, after.isTracked p = peer.isTracked p

/-- What becomes of a player by an accepted position: it stays in its leaf, moves to another tracked
one, or leaves the tracked leaves. -/
inductive Lands (peer after : Peer) (r : RemotePlayer) (s : UInt32) (p : Point)
    (leaf : RegionPath) : Prop
  | home (hsame : r.region = some leaf)
      (hentry : after.player? r.name = some (r.accepted s p leaf))
      (hlists : after.octree = peer.octree)
  | moved (old : RegionPath) (hold : r.region = some old) (hne : old ≠ leaf)
      (htracked : peer.isTracked leaf = true)
      (hentry : after.player? r.name = some (r.accepted s p leaf))
      (hlists : peer.octree.Moves after.octree r.name old leaf)
  | evicted (old : RegionPath) (hold : r.region = some old) (hne : old ≠ leaf)
      (htracked : peer.isTracked leaf = false)
      (hentry : after.player? r.name = none)
      (hlists : peer.octree.Loses after.octree r.name old)

/-! What an answer says. -/

theorem parseAnswer_eq_ok_iff : parseAnswer e response = .ok (s, payload) ↔
    e.Numbers s response.name ∧ Payload.ofBytes response.content = .ok payload := by
  rw [← answerSequence_eq_ok_iff]
  constructor
  · intro h
    obtain ⟨t, hname, h⟩ := ok_of_bind h
    obtain ⟨q, hread, h⟩ := ok_of_bind h
    cases h
    exact ⟨hname, hread⟩
  · rintro ⟨hname, hread⟩
    rw [parseAnswer, hname, hread]
    rfl

theorem readAnswer_eq_some_iff : (readAnswer σ e response).1 = some (s, payload) ↔
    σ.check response = .ok () ∧ e.Numbers s response.name ∧
      Payload.ofBytes response.content = .ok payload := by
  rw [← parseAnswer_eq_ok_iff]
  constructor
  · exact readAnswer_eq_some
  · rintro ⟨hcheck, hparse⟩
    rw [readAnswer, distrust, hcheck]
    dsimp only
    rw [hparse]

theorem leaf?_eq_none_iff {g : Geometry} : g.leaf? p = none ↔ ¬ g.inWorld p = true := by
  unfold Geometry.leaf?
  split
  · next h => simp [h]
  · next h => simp [h]

/-- An answer about a player of the table is useless, a reset, or an accepted position. -/
theorem useless_or (hknown : peer.player? e = some r) (response : Response) :
    Useless σ peer r response ∨ (∃ goal, Resets σ e response goal) ∨
      ∃ s p leaf, peer.Accepts σ e response r s p leaf := by
  have hname := name_of_player? hknown
  by_cases hcheck : σ.check response = .ok ()
  · by_cases hnumbers : ∃ s, r.name.Numbers s response.name
    · obtain ⟨s, hs⟩ := hnumbers
      cases hread : Payload.ofBytes response.content with
      | error reason => exact Or.inl (.malformed fun payload => by simp [hread])
      | ok payload =>
          cases payload with
          | reset goal reason =>
              exact Or.inr (Or.inl ⟨goal, hcheck, ⟨s, hname ▸ hs⟩, reason, hread⟩)
          | position p =>
              by_cases hnewer : peer.window.isNewer r.sequence s = .ok true
              · cases hleaf : peer.geometry.leaf? p with
                | none => exact Or.inl (.outside p hread (leaf?_eq_none_iff.1 hleaf))
                | some leaf =>
                    refine Or.inr (Or.inr ⟨s, p, leaf, hknown, hcheck, ?_, hnewer, hleaf⟩)
                    exact parseAnswer_eq_ok_iff.2 ⟨hname ▸ hs, hread⟩
              · exact Or.inl (.stale s p hs hread hnewer)
    · exact Or.inl (.misnamed fun s hs => hnumbers ⟨s, hs⟩)
  · exact Or.inl (.untrusted hcheck)

/-! What the peer makes of it. -/

/-- A position that is not newer or not of the world is not applied. -/
theorem apply_rejected (h : peer.window.isNewer r.sequence s ≠ .ok true ∨
    ¬ peer.geometry.inWorld p = true) : (peer.apply r s (.position p)).peer = peer := by
  unfold apply
  dsimp only
  split
  · rfl
  · rfl
  · next hnewer =>
      rcases h with h | h
      · exact absurd hnewer h
      · rw [leaf?_eq_none_iff.2 h]

theorem hear_useless (hknown : peer.player? e = some r) (h : Useless σ peer r response) :
    (peer.hear σ e response).peer = peer.setPlayer r.heard := by
  have hname := name_of_player? hknown
  unfold hear
  dsimp only
  rw [hknown]
  dsimp only
  split
  · rfl
  · next s payload hanswer =>
      obtain ⟨hcheck, hnumbers, hread⟩ := readAnswer_eq_some_iff.1 hanswer
      rw [← hname] at hnumbers
      cases h with
      | untrusted h => exact absurd hcheck h
      | misnamed h => exact absurd hnumbers (h s)
      | malformed h => exact absurd hread (h payload)
      | stale t q hother hposition h =>
          -- A name holds one number, so the one that was read is the one that is not newer.
          obtain rfl : s = t := by
            have hs := answerSequence_eq_ok_iff.2 hnumbers
            rw [answerSequence_eq_ok_iff.2 hother] at hs
            exact (Except.ok.inj hs).symm
          obtain rfl : payload = .position q := Except.ok.inj (hread.symm.trans hposition)
          exact apply_rejected (Or.inl h)
      | outside q hposition h =>
          obtain rfl : payload = .position q := Except.ok.inj (hread.symm.trans hposition)
          exact apply_rejected (Or.inr h)

theorem Resets.readAnswer (h : Resets σ e response goal) :
    ∃ s reason, readAnswer σ e response = (some (s, .reset goal reason), []) := by
  obtain ⟨hcheck, ⟨s, hnumbers⟩, reason, hread⟩ := h
  have hanswer := readAnswer_eq_some_iff.2 ⟨hcheck, hnumbers, hread⟩
  exact ⟨s, reason, Prod.ext hanswer (readAnswer_some (Prod.ext hanswer rfl))⟩

/-- A reset moves the player's number. -/
theorem hear_resets (hknown : peer.player? e = some r) (h : Resets σ e response goal) {t : UInt32}
    (hprev : peer.window.prev goal = .ok t) :
    (peer.hear σ e response).peer = peer.setPlayer (r.resetTo t) := by
  obtain ⟨s, reason, hread⟩ := h.readAnswer
  rw [hear_reset_eq hknown hread hprev]
  rfl

/-- Where the step back overflows, a reset comes to nothing. -/
theorem hear_resets_fault (hknown : peer.player? e = some r) (h : Resets σ e response goal)
    {fault : Fault} (hprev : peer.window.prev goal = .error fault) :
    (peer.hear σ e response).peer = peer.setPlayer r.heard ∧
      (peer.hear σ e response).value = .error fault := by
  obtain ⟨s, reason, hread⟩ := h.readAnswer
  have hprev' : (peer.setPlayer r.heard).window.prev goal = .error fault := hprev
  rw [hear_eq hknown hread, apply, hprev']
  exact ⟨rfl, rfl⟩

/-- An answer whose position is not accepted changes the entry of its player at most. -/
theorem exists_setPlayer_of_hear (hknown : peer.player? e = some r)
    (h : Useless σ peer r response ∨ ∃ goal, Resets σ e response goal) :
    ∃ q : RemotePlayer, q.name = e ∧ (peer.hear σ e response).peer = peer.setPlayer q := by
  have hname := name_of_player? hknown
  rcases h with h | ⟨goal, h⟩
  · exact ⟨r.heard, hname, hear_useless hknown h⟩
  · cases hprev : peer.window.prev goal with
    | ok t => exact ⟨r.resetTo t, hname, hear_resets hknown h hprev⟩
    | error fault => exact ⟨r.heard, hname, (hear_resets_fault hknown h hprev).1⟩

/-! Who is touched. -/

theorem others_setPlayer (peer : Peer) (r : RemotePlayer) :
    (peer.setPlayer r).players.filter (·.name != r.name) =
      peer.players.filter (·.name != r.name) :=
  congrArg Peer.players (forget_setPlayer peer r)

theorem Touches.refl (e : EntityName) (peer : Peer) : Touches e peer peer :=
  ⟨rfl, rfl, rfl, fun _ => rfl⟩

theorem touches_setPlayer (q : RemotePlayer) (hname : q.name = e) {octree : Octree}
    (hgeometry : octree.geometry = peer.octree.geometry)
    (htracked : ∀ x, octree.isTracked x = peer.octree.isTracked x) :
    Touches e peer (({ peer with octree } : Peer).setPlayer q) :=
  ⟨rfl, hname ▸ others_setPlayer ({ peer with octree } : Peer) q, hgeometry, htracked⟩

theorem touches_forget (peer : Peer) (e : EntityName) (old : RegionPath) :
    Touches e peer { peer.forget e with octree := peer.octree.removeName old e } := by
  refine ⟨rfl, ?_, Octree.geometry_removeName .., fun _ => Octree.isTracked_removeName ..⟩
  rw [forget, List.filter_filter]
  simp

/-- An accepted position notes itself in the entry and moves or evicts its player. -/
theorem Accepts.lands (hpeer : peer.Consistent) (h : peer.Accepts σ e response r s p leaf) :
    Touches r.name peer (peer.hear σ e response).peer ∧
      Lands peer (peer.hear σ e response).peer r s p leaf := by
  have hknown := h.known
  obtain rfl := name_of_player? hknown
  obtain ⟨old, hold, -, -⟩ := hpeer.housed r (mem_of_player? hknown)
  have hear : (peer.hear σ r.name response).peer =
      ((peer.setPlayer r.heard).accept r.heard s p leaf).1 := congrArg Prod.fst h.hear
  have hentry : ∀ octree, (({ peer with octree } : Peer).setPlayer (r.accepted s p leaf)).player?
      r.name = some (r.accepted s p leaf) := fun octree =>
    player?_setPlayer_eq hknown (r.accepted s p leaf) rfl
  -- That the player is listed in no other leaf is what puts it last in the new one, and nowhere once
  -- it is taken from the old one.
  have honly := hpeer.hasName_player (mem_of_player? hknown) hold
  by_cases hne : old = leaf
  · subst hne
    rw [hear, accept_home peer s p hold]
    exact ⟨touches_setPlayer (r.accepted s p old) rfl rfl fun _ => rfl,
      .home hold (hentry peer.octree) rfl⟩
  cases htracked : peer.isTracked leaf with
  | true =>
      obtain ⟨octree, hadd, haccept⟩ :=
        accept_moved (hpeer.isLeaf_of_leaf? h.inWorld) hold hne htracked s p
      obtain ⟨hgeometry, hflags, -⟩ := Octree.frame_of_move hadd
      have hnew : ¬ peer.octree.hasName leaf r.name = true :=
        fun hlisted => hne ((honly leaf).1 hlisted).symm
      rw [hear, haccept]
      exact ⟨touches_setPlayer (r.accepted s p leaf) rfl hgeometry hflags,
        .moved old hold hne htracked (hentry octree) (Octree.moves_of_addName hne hnew hadd)⟩
  | false =>
      rw [hear, accept_evicted hold hne (Bool.eq_false_iff.1 htracked)]
      exact ⟨touches_forget peer r.name old, .evicted old hold hne htracked
        (player?_eq_none_iff.2 (by simp [forget]))
        (Octree.loses_of_removeName hpeer.wellFormed honly)⟩

theorem hear_unknown (h : peer.player? e = none) (response : Response) :
    (peer.hear σ e response).peer = peer := by
  unfold hear
  dsimp only
  rw [h]

theorem touches_hear (hpeer : peer.Consistent) (e : EntityName) (response : Response) :
    Touches e peer (peer.hear σ e response).peer := by
  cases hknown : peer.player? e with
  | none =>
      rw [hear_unknown hknown]
      exact .refl e peer
  | some r =>
      rcases or_assoc.2 (useless_or (σ := σ) hknown response) with h | ⟨s, p, leaf, h⟩
      · obtain ⟨q, hname, hafter⟩ := exists_setPlayer_of_hear hknown h
        rw [hafter]
        exact touches_setPlayer q hname rfl fun _ => rfl
      · exact name_of_player? hknown ▸ (h.lands hpeer).1

/-- Whatever a position answer says, in every reachable state it touches only its player. An answer
that is of no use ends the wait for it; a reset moves the player's number as well, unless the step
back overflows, which only a window of more than half of all words allows; an accepted position is
noted, and its player stays in its leaf, moves to another tracked one, or is forgotten. -/
theorem hear_touches (hpeer : peer.Reachable σ) (e : EntityName) (response : Response) :
    let outcome := peer.hear σ e response
    (peer.config.windowSize.toNat ≤ 2 ^ 31 → outcome.value = .ok ()) ∧
      (peer.player? e = none → outcome.peer = peer) ∧
      ∀ r, peer.player? e = some r →
        Touches e peer outcome.peer ∧
        (Useless σ peer r response ∨ (∃ goal, Resets σ e response goal) ∨
          ∃ s p leaf, peer.Accepts σ e response r s p leaf) ∧
        (Useless σ peer r response →
          outcome.peer.player? e = some r.heard ∧ outcome.peer.octree = peer.octree) ∧
        (∀ goal, Resets σ e response goal → outcome.peer.octree = peer.octree ∧
          (∀ t, peer.window.prev goal = .ok t → outcome.peer.player? e = some (r.resetTo t)) ∧
          ∀ fault, peer.window.prev goal = .error fault →
            outcome.peer.player? e = some r.heard ∧ outcome.value = .error fault) ∧
        ∀ s p leaf, peer.Accepts σ e response r s p leaf → Lands peer outcome.peer r s p leaf := by
  intro outcome
  have hconsistent := hpeer.consistent
  refine ⟨fun hsize => ?_, fun hunknown => ?_, fun r hknown => ?_⟩
  · exact value_hear (Config.fair_of_validate hpeer.made.1 hsize) e response
  · exact hear_unknown hunknown response
  have hname := name_of_player? hknown
  have hentry : ∀ q : RemotePlayer, q.name = e → outcome.peer = peer.setPlayer q →
      outcome.peer.player? e = some q := by
    intro q hsame hafter
    rw [hafter]
    exact player?_setPlayer_eq hknown q (hsame.trans hname.symm)
  refine ⟨touches_hear hconsistent e response, useless_or hknown response, fun h => ⟨?_, ?_⟩,
    fun goal h => ⟨?_, fun t hprev => ?_, fun fault hprev => ⟨?_, ?_⟩⟩,
    fun s p leaf h => (h.lands hconsistent).2⟩
  · exact hentry r.heard hname (hear_useless hknown h)
  · exact (congrArg Peer.octree (hear_useless hknown h)).trans rfl
  · obtain ⟨q, -, hafter⟩ := exists_setPlayer_of_hear hknown (Or.inr ⟨goal, h⟩)
    exact (congrArg Peer.octree hafter).trans rfl
  · exact hentry (r.resetTo t) hname (hear_resets hknown h hprev)
  · exact hentry r.heard hname (hear_resets_fault hknown h hprev).1
  · exact (hear_resets_fault hknown h hprev).2

/-- A player held under number 3 in one tracked leaf is moved to another one by a position, and led
back to number 8 by a reset. -/
theorem hear_touches_bob : ∃ (peer : Peer) (r : RemotePlayer) (news reset : Response) (p : Point),
    peer.Reachable .sealing ∧ peer.player? ⟨"/hub", "bob"⟩ = some r ∧
      r.region = some ⟨[0, 0]⟩ ∧ r.sequence = some 3 ∧
      (Touches ⟨"/hub", "bob"⟩ peer (peer.hear .sealing ⟨"/hub", "bob"⟩ news).peer ∧
        Lands peer (peer.hear .sealing ⟨"/hub", "bob"⟩ news).peer r 5 p ⟨[0, 4]⟩) ∧
      Touches ⟨"/hub", "bob"⟩ peer (peer.hear .sealing ⟨"/hub", "bob"⟩ reset).peer ∧
      (peer.hear .sealing ⟨"/hub", "bob"⟩ reset).peer.player? ⟨"/hub", "bob"⟩ =
        some (r.resetTo 8) := by
  let config : Config := { hub := "/hub", depth := 2, worldBits := 2 }
  let bob : EntityName := ⟨"/hub", "bob"⟩
  let sealed (name : Name) (content : String) : Response :=
    ⟨name, Text.bytesOf content, 0, 0, Response.signable name (Text.bytesOf content) 0 0, []⟩
  let place : Point := ⟨.ofNat 1, .zero, .zero⟩
  let news := sealed (bob.numbered 5) "1,0,0"
  let reset := sealed (bob.numbered 4) "reset:9:behind"
  let operations : List Operation := [.track ⟨[0, 0]⟩, .track ⟨[0, 4]⟩,
    .learn (sealed .root "/hub:bob 0/0\n"), .hear bob (sealed (bob.numbered 3) "0,0,0")]
  have hmade : (made? config "alice" ⟨.zero, .zero, .zero⟩ []).any (fun start =>
      let peer := start.run .sealing operations
      (peer.player? bob).any fun r => decide (r.region = some ⟨[0, 0]⟩ ∧ r.sequence = some 3 ∧
        peer.window.isNewer r.sequence 5 = .ok true ∧ peer.window.prev 9 = .ok 8 ∧
        peer.geometry.leaf? place = some ⟨[0, 4]⟩)) = true := by
    decide +kernel
  have hread : parseAnswer bob news = .ok (5, .position place) := by decide +kernel
  have hreset : parseAnswer bob reset = .ok (4, .reset 9 "behind") := by decide +kernel
  obtain ⟨start, hstart, hreached⟩ := exists_make hmade
  cases hknown : (start.run .sealing operations).player? bob with
  | none => simp [hknown] at hreached
  | some r =>
      simp only [hknown, Option.any_some, decide_eq_true_eq] at hreached
      obtain ⟨hregion, hsequence, hnewer, hprev, hleaf⟩ := hreached
      have hpeer : (start.run .sealing operations).Reachable .sealing :=
        ⟨config, _, _, _, start, operations, hstart, rfl⟩
      have hresets : Resets .sealing bob reset 9 := by
        obtain ⟨hnumbers, hpayload⟩ := parseAnswer_eq_ok_iff.1 hreset
        exact ⟨by decide +kernel, ⟨4, hnumbers⟩, "behind", hpayload⟩
      have hnews := (hear_touches hpeer bob news).2.2 r hknown
      have hback := (hear_touches hpeer bob reset).2.2 r hknown
      have hentry := (hback.2.2.2.1 9 hresets).2.1 8 hprev
      refine ⟨_, r, news, reset, place, hpeer, hknown, hregion, hsequence, ⟨hnews.1, ?_⟩,
        hback.1, hentry⟩
      exact hnews.2.2.2.2 5 place ⟨[0, 4]⟩ ⟨hknown, by decide +kernel, hread, hnewer, hleaf⟩

end Peer

end RegionSync
