import RegionSync.Proofs.Message.Name
import RegionSync.Proofs.Peer.Asking
import RegionSync.Proofs.Peer.Tracking

/-!
Players under several names. Names of players are compared letter by letter, but the network name under
which a player answers drops the empty segments of the owner. So an owner that is spelled with other
slashes makes another name for the same player: requests to one are read as requests to the other,
and a peer that knows the player by one name takes it up again by the other.
-/

namespace RegionSync

/-- What follows the player's name in the name of a request. -/
def Ask.components : Ask → List String
  | .position none => ["position"]
  | .position (some s) => ["position", String.ofList (Text.decimal s.toNat)]
  | .renderTag => ["info", "render"]

namespace EntityName

variable {a b e : EntityName}

/-- The names differ at most in slashes that separate nothing in their owners. -/
def Respells (a b : EntityName) : Prop :=
  a.id = b.id ∧ Name.componentsOf a.owner = Name.componentsOf b.owner

instance (a b : EntityName) : Decidable (a.Respells b) :=
  inferInstanceAs (Decidable (_ ∧ _))

/-- The owner is spelled as names are written: a slash before each component, and no other. -/
def Plain (e : EntityName) : Prop :=
  e.owner = (⟨Name.componentsOf e.owner⟩ : Name).text

instance (e : EntityName) : Decidable e.Plain :=
  inferInstanceAs (Decidable (_ = _))

/-- The name of a request to a player. -/
def requestName (e : EntityName) : Ask → Name
  | .position none => e.positionName
  | .position (some s) => e.numbered s
  | .renderTag => e.renderName

theorem Respells.eq_of_plain (h : a.Respells b) (ha : a.Plain) (hb : b.Plain) : a = b := by
  obtain ⟨owner, id⟩ := a
  obtain ⟨owner', id'⟩ := b
  obtain ⟨hid, howner⟩ := h
  have hsame : owner = owner' :=
    calc owner = (⟨Name.componentsOf owner⟩ : Name).text := ha
      _ = (⟨Name.componentsOf owner'⟩ : Name).text := congrArg (fun cs => (Name.mk cs).text) howner
      _ = owner' := hb.symm
  exact EntityName.mk.injEq .. ▸ ⟨hsame, hid⟩

/-- The parts of a valid name appear in its network name: the owner cut at its slashes, and the id. -/
theorem Valid.playerName_eq (h : e.Valid) :
    e.playerName = ⟨Name.componentsOf e.owner ++ ["players", e.id]⟩ := by
  have hblank : Name.hasBlank e.owner = false := by
    rw [Name.hasBlank, List.any_eq_false]
    intro c hc
    rw [(of_mem_isPart h.parts.1 hc).2]
    exact Bool.false_ne_true
  have hid : '/' ∉ e.id.toList ∧ e.id.toList ≠ [] := by
    have hvalid : isValid e.owner e.id = true := h
    simp only [isValid, isPart, Bool.and_eq_true, Bool.not_eq_true'] at hvalid
    refine ⟨?_, ?_⟩
    · simpa using hvalid.2
    · simpa using hvalid.1.2.1
  rw [playerName, Name.ofText?, hblank]
  change ((Name.mk (Name.componentsOf e.owner)).child "players").child e.id = _
  rw [Name.child_of_not_mem hid.1 hid.2, Name.child_of_not_mem (by decide) (by decide),
    List.append_assoc]
  rfl

/-- Two players share a network name if and only if one name respells the other. -/
theorem Valid.playerName_inj (ha : a.Valid) (hb : b.Valid) :
    a.playerName = b.playerName ↔ a.Respells b := by
  rw [ha.playerName_eq, hb.playerName_eq, Name.mk.injEq]
  constructor
  · intro h
    obtain ⟨howner, hid⟩ := List.append_inj' h rfl
    exact ⟨by simpa using hid, howner⟩
  · rintro ⟨hid, howner⟩
    rw [hid, howner]

theorem requestName_eq (e : EntityName) (ask : Ask) :
    e.requestName ask = ⟨e.playerName.components ++ ask.components⟩ := by
  cases ask with
  | position sequence =>
      cases sequence with
      | none => exact e.positionName_eq
      | some s =>
          change e.numbered s = _
          rw [numbered_eq, positionName_eq, List.append_assoc]
          rfl
  | renderTag => exact e.renderName_eq

end EntityName

namespace Ask

variable {player name : Name} {ask : Ask}

theorem ofName_requestName (e : EntityName) (ask : Ask) :
    ofName e.playerName (e.requestName ask) = .ok ask := by
  cases ask with
  | position sequence =>
      cases sequence with
      | none => exact ofName_positionName e
      | some s => exact ofName_numbered e s
  | renderTag => exact e.ofName_renderName

/-- The ends that requests can have: a single component, or two of which the last is another one. -/
def Ends (rest : List String) : Prop :=
  rest = ["position"] ∨ ∃ first last, rest = [first, last] ∧ last ≠ "position"

theorem ne_position_of_read {text : String} {s : UInt32} (h : Text.readUInt32? text.toList = some s) :
    text ≠ "position" := by
  rintro rfl
  have hnone : Text.readUInt32? "position".toList = none := by decide
  rw [hnone] at h
  cases h

theorem ends_components (ask : Ask) : Ends ask.components := by
  cases ask with
  | position sequence =>
      cases sequence with
      | none => exact Or.inl rfl
      | some s =>
          refine Or.inr ⟨_, _, rfl, ne_position_of_read (s := s) ?_⟩
          rw [String.toList_ofList]
          exact Text.readUInt32?_decimal s
  | renderTag => exact Or.inr ⟨_, _, rfl, by decide⟩

theorem ends_of_ofName (h : ofName player name = .ok ask) :
    ∃ rest, name.components = player.components ++ rest ∧ Ends rest := by
  obtain ⟨rest, rfl, hends⟩ := ofName_eq_ok_iff.1 h
  refine ⟨rest, rfl, ?_⟩
  cases hends with
  | current => exact Or.inl rfl
  | numbered hread => exact Or.inr ⟨_, _, rfl, ne_position_of_read hread⟩
  | renderTag => exact Or.inr ⟨_, _, rfl, by decide⟩

/-- Ends are told apart by their last component, so what stands before them is the same. -/
theorem Ends.eq_of_append {before before' rest rest' : List String} (h : Ends rest)
    (h' : Ends rest') (heq : before ++ rest = before' ++ rest') : before = before' := by
  have hlast : (before ++ rest).getLast? = (before' ++ rest').getLast? := congrArg _ heq
  rcases h with rfl | ⟨first, last, rfl, hother⟩
  · rcases h' with rfl | ⟨first', last', rfl, hother'⟩
    · exact (List.append_inj' heq rfl).1
    · exact absurd (by simpa using hlast.symm) hother'
  · rcases h' with rfl | ⟨first', last', rfl, -⟩
    · exact absurd (by simpa using hlast) hother
    · exact (List.append_inj' heq rfl).1

/-- A request to one player is read under another one's name if and only if they share that name, and
then as it was meant. -/
theorem ofName_requestName_iff {a b : EntityName} {asked : Ask} :
    ofName b.playerName (a.requestName ask) = .ok asked ↔ a.playerName = b.playerName ∧ asked = ask := by
  constructor
  · intro hread
    obtain ⟨rest, hrest, hends⟩ := ends_of_ofName hread
    rw [EntityName.requestName_eq] at hrest
    have hname : a.playerName = b.playerName :=
      congrArg Name.mk ((ends_components ask).eq_of_append hends hrest)
    rw [← hname, ofName_requestName] at hread
    exact ⟨hname, (Except.ok.inj hread).symm⟩
  · rintro ⟨hname, rfl⟩
    rw [← hname]
    exact ofName_requestName a asked

end Ask

namespace Peer

variable {σ : Scheme} {peer : Peer} {leaf : RegionPath} {response : Response} {a b : EntityName}

/-- A name that a peer knows nobody by is taken up from a listing, whomever it names. -/
theorem players_learn_stranger (hpeer : peer.Reachable σ) (htracked : peer.isTracked leaf = true)
    (hcheck : σ.check response = .ok ()) (hcontent : response.content = Listing.body [⟨leaf, [b]⟩])
    (hb : b.Valid) (hown : b ≠ peer.self.name) (hunknown : peer.player? b = none) :
    (peer.learn σ response).peer.players =
      peer.players ++ [.discovered b leaf peer.config.windowSize] := by
  have hleaf := hpeer.sweeping.leaf leaf htracked
  have hteaches := hpeer.consistent.teaches hcheck hcontent (List.forall_mem_singleton.2 hb)
    (List.nodup_singleton b) (hpeer.isRoot_of_isLeaf hleaf) hleaf htracked
  have hnews : ([b].filter fun e => e != peer.self.name && (peer.player? e).isNone) = [b] := by
    simp [hown, hunknown]
  rw [hteaches.players, hnews]
  rfl

/-- The first poll of a player stands under the name of its positions. -/
theorem pollName_discovered_iff (ha : a.Valid) (hb : b.Valid) (w : Window) (size : UInt32) :
    pollName w (.discovered b leaf size) = .ok a.positionName ↔ a.Respells b := by
  rw [← ha.playerName_inj hb, show pollName w (.discovered b leaf size) = .ok b.positionName from rfl,
    Except.ok.injEq, b.positionName_eq, a.positionName_eq, Name.mk.injEq, List.append_cancel_right_eq,
    ← Name.mk.injEq, eq_comm]

/-- Two valid names have one network name exactly if one respells the other; names with plainly spelled
owners do so only if they are the same. A request to the one is read under the other's network name
exactly then, and as it was meant. Nor does a peer notice: a listing of a name that it knows nobody by
adds an entry under it, and the poll of that goes to the player of the other name exactly then, be that
one known already or the peer's own. -/
theorem shared_name_iff_respells (ha : a.Valid) (hb : b.Valid) :
    (a.playerName = b.playerName ↔ a.Respells b) ∧
    (a.Plain → b.Plain → (a.Respells b ↔ a = b)) ∧
    (∀ ask asked, Ask.ofName b.playerName (a.requestName ask) = .ok asked ↔
      a.Respells b ∧ asked = ask) ∧
    ∀ (σ : Scheme) (peer : Peer) (leaf : RegionPath) (response : Response),
      peer.Reachable σ → peer.isTracked leaf = true → σ.check response = .ok () →
      response.content = Listing.body [⟨leaf, [b]⟩] → b ≠ peer.self.name → peer.player? b = none →
      ∃ taken : RemotePlayer, taken.name = b ∧
        (peer.learn σ response).peer.players = peer.players ++ [taken] ∧
        (pollName peer.window taken = .ok a.positionName ↔ a.Respells b) := by
  refine ⟨ha.playerName_inj hb, fun hplain hplain' => ⟨fun h => h.eq_of_plain hplain hplain', ?_⟩,
    fun ask asked => ?_, ?_⟩
  · rintro rfl
    exact ⟨rfl, rfl⟩
  · rw [← ha.playerName_inj hb]
    exact Ask.ofName_requestName_iff
  · intro σ peer leaf response hpeer htracked hcheck hcontent hown hunknown
    exact ⟨.discovered b leaf peer.config.windowSize, rfl,
      players_learn_stranger hpeer htracked hcheck hcontent hb hown hunknown,
      pollName_discovered_iff ha hb peer.window peer.config.windowSize⟩

/-- A peer that knows a player hears of it with the owner's slash left out. -/
theorem shared_name_bob : ∃ (peer : Peer) (response : Response) (known taken : RemotePlayer),
    peer.Reachable .sealing ∧ known.name = ⟨"/hub", "bob"⟩ ∧ taken.name = ⟨"hub", "bob"⟩ ∧
      (peer.learn .sealing response).peer.players = [known, taken] ∧
      pollName peer.window known = pollName peer.window taken ∧
      known.name.playerName = taken.name.playerName ∧
      Ask.ofName taken.name.playerName (known.name.requestName (.position (some 7))) =
        .ok (.position (some 7)) := by
  let config : Config := { hub := "/hub", depth := 2, worldBits := 2 }
  let sealed (content : String) : Response :=
    ⟨.root, Text.bytesOf content, 0, 0, Response.signable .root (Text.bytesOf content) 0 0, []⟩
  let bob : EntityName := ⟨"/hub", "bob"⟩
  let again : EntityName := ⟨"hub", "bob"⟩
  let response := sealed "hub:bob 0/0\n"
  let operations : List Operation := [.track ⟨[0, 0]⟩, .learn (sealed "/hub:bob 0/0\n")]
  have hmade : (made? config "alice" ⟨.zero, .zero, .zero⟩ []).any (fun start => decide
      ((start.run .sealing operations).isTracked ⟨[0, 0]⟩ = true ∧
        again ≠ (start.run .sealing operations).self.name ∧
        ((start.run .sealing operations).player? again).isNone = true ∧
        (start.run .sealing operations).players.map (fun r => (r.name, r.sequence)) =
          [(bob, none)])) = true := by
    decide +kernel
  have hcontent : response.content = Listing.body [⟨⟨[0, 0]⟩, [again]⟩] := by decide +kernel
  have hcheck : Scheme.check .sealing response = .ok () := by decide +kernel
  have hrespells : bob.Respells again := by decide
  obtain ⟨start, hstart, hreached⟩ := exists_make hmade
  obtain ⟨htracked, hown, hunknown, hplayers⟩ := of_decide_eq_true hreached
  obtain ⟨known, rest, hcons, hentry, hrest⟩ := List.map_eq_cons_iff.1 hplayers
  obtain rfl := List.map_eq_nil_iff.1 hrest
  obtain ⟨hname, hsequence⟩ := Prod.mk.inj hentry
  have hpeer : (start.run .sealing operations).Reachable .sealing :=
    ⟨config, _, _, _, start, operations, hstart, rfl⟩
  obtain ⟨hshared, -, hask, hlearn⟩ := shared_name_iff_respells (a := bob) (b := again)
    (by decide : EntityName.isValid _ _ = true) (by decide : EntityName.isValid _ _ = true)
  obtain ⟨taken, htaken, hafter, hpoll⟩ := hlearn .sealing _ ⟨[0, 0]⟩ response hpeer htracked hcheck
    hcontent hown (Option.isNone_iff_eq_none.1 hunknown)
  rw [hcons] at hafter
  refine ⟨_, response, known, taken, hpeer, hname, htaken, hafter, ?_, ?_, ?_⟩
  · rw [hpoll.2 hrespells, pollName, hsequence, hname]
  · rw [hname, htaken]
    exact hshared.2 hrespells
  · rw [hname, htaken]
    exact (hask _ _).2 ⟨hrespells, rfl⟩

end Peer

end RegionSync
