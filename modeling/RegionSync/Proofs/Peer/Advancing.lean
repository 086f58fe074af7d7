import RegionSync.Proofs.Peer.Dropping
import RegionSync.Proofs.Position.Newer

/-!
The numbers under which a player's positions are accepted. As long as no poll of the player is
missed, no reset of it heard and it is not discovered anew, the number held is the one last accepted:
so each number accepted is newer than the one before, all around the circle.
-/

namespace RegionSync.Peer

variable {σ : Scheme} {peer : Peer} {e : EntityName} {activity : Activity}
  {activities : List Activity} {r : RemotePlayer} {s : UInt32}

/-- The number held of a player. -/
def held? (peer : Peer) (e : EntityName) : Option UInt32 :=
  (peer.player? e).bind (·.sequence)

/-- The number of the player's position that the activity makes the peer accept. -/
def accepts? (σ : Scheme) (peer : Peer) (e : EntityName) : Activity → Option UInt32
  | .operation (.hear name response) =>
    match peer.player? e, (readAnswer σ e response).1 with
    | some r, some (s, .position p) =>
      if name = e ∧ peer.window.isNewer r.sequence s = .ok true ∧ peer.geometry.inWorld p = true then
        some s
      else none
    | _, _ => none
  | _ => none

/-- The numbers of all positions of the player accepted in the activities, in their order. -/
def acceptedNumbers (σ : Scheme) (e : EntityName) (peer : Peer) : List Activity → List UInt32
  | [] => []
  | activity :: rest => (peer.accepts? σ e activity).toList ++
      (peer.perform σ activity).1.acceptedNumbers σ e rest

/-- The activity is no missed poll, reset or discovery of the player. -/
structure Undisturbed (σ : Scheme) (peer : Peer) (e : EntityName) (activity : Activity) : Prop where
  miss : activity.isMiss e = false
  reset : ∀ response goal, activity = .operation (.hear e response) → ¬ Resets σ e response goal
  discovery : peer.player? e = none → (peer.perform σ activity).1.player? e = none

/-- None of the activities disturbs the player in the state that it finds. -/
def UndisturbedAll (σ : Scheme) (peer : Peer) (e : EntityName) : List Activity → Prop
  | [] => True
  | activity :: rest =>
    Undisturbed σ peer e activity ∧ UndisturbedAll σ (peer.perform σ activity).1 e rest

/-! What is accepted. -/

theorem inWorld_iff_leaf? {g : Geometry} {p : Point} :
    g.inWorld p = true ↔ ∃ leaf, g.leaf? p = some leaf := by
  rw [← Option.ne_none_iff_exists', ne_eq, leaf?_eq_none_iff, not_not]

theorem accepts?_eq_some_iff : peer.accepts? σ e activity = some s ↔
    ∃ response r p leaf, activity = .operation (.hear e response) ∧
      peer.Accepts σ e response r s p leaf := by
  constructor
  · intro h
    unfold accepts? at h
    split at h
    · next name response =>
        split at h
        · next r t p hknown hread =>
            split at h
            · next hall =>
                obtain ⟨rfl, hnewer, hworld⟩ := hall
                obtain ⟨leaf, hleaf⟩ := inWorld_iff_leaf?.1 hworld
                obtain ⟨hcheck, hparse⟩ := readAnswer_eq_some hread
                cases h
                exact ⟨response, r, p, leaf, rfl, hknown, hcheck, hparse, hnewer, hleaf⟩
            · cases h
        · cases h
    · cases h
  · rintro ⟨response, r, p, leaf, rfl, haccepts⟩
    have hread := haccepts.readAnswer
    have hworld := inWorld_iff_leaf?.2 ⟨leaf, haccepts.inWorld⟩
    simp only [accepts?, haccepts.known, hread, haccepts.newer, hworld, and_self, if_true]

theorem accepts?_of_unknown (h : peer.player? e = none) (activity : Activity) :
    peer.accepts? σ e activity = none := by
  rw [Option.eq_none_iff_forall_ne_some]
  intro s hs
  obtain ⟨response, r, p, leaf, -, haccepts⟩ := accepts?_eq_some_iff.1 hs
  rw [haccepts.known] at h
  cases h

theorem held?_of_known (h : peer.player? e = some r) : peer.held? e = r.sequence := by
  rw [held?, h, Option.bind_some]

theorem advances_of_accepts? (hsize : peer.window.size ≠ 0) (hfits : ∀ s, peer.window.Fits s)
    (haccepts : peer.accepts? σ e activity = some s) {held : UInt32}
    (hheld : peer.held? e = some held) : peer.window.Advances held s := by
  obtain ⟨response, r, p, leaf, -, haccepts⟩ := accepts?_eq_some_iff.1 haccepts
  have hnewer := haccepts.newer
  rw [held?_of_known haccepts.known] at hheld
  rw [hheld] at hnewer
  exact (Window.isNewer_eq_true_iff hsize held (hfits s)).1 hnewer

/-! What is held. -/

/-- Where nothing is accepted, the number stays as long as the entry does. -/
theorem Undisturbed.kept (hpeer : peer.Consistent) (h : Undisturbed σ peer e activity)
    (hnone : peer.accepts? σ e activity = none) (hknown : peer.player? e = some r) :
    (peer.perform σ activity).1.player? e = none ∨
      (peer.perform σ activity).1.held? e = r.sequence := by
  by_cases huntrack : ∃ leaf, activity = .operation (.untrack leaf)
  · obtain ⟨leaf, rfl⟩ := huntrack
    cases hafter : (peer.perform σ (.operation (.untrack leaf))).1.player? e with
    | none => exact Or.inl rfl
    | some r' =>
        -- What is left of the table was there before, and under each name there is one entry.
        have hbefore := players_untrack_subset peer leaf (mem_of_player? hafter)
        obtain rfl : r = r' := Option.some.inj <| hknown.symm.trans <|
          (player?_eq_some_iff hpeer.nodup).2 ⟨hbefore, name_of_player? hafter⟩
        exact Or.inr (held?_of_known hafter)
  · have hspares : Spares σ peer e activity := by
      refine ⟨fun response r s p leaf hactivity haccepts => ?_,
        fun response goal t hactivity hresets => absurd hresets (h.reset response goal hactivity),
        fun leaf _ hactivity => absurd ⟨leaf, hactivity⟩ huntrack⟩
      rw [accepts?_eq_some_iff.2 ⟨response, r, p, leaf, hactivity, haccepts⟩] at hnone
      cases hnone
    obtain ⟨⟨r', hafter, -, -, hsequence⟩, -⟩ := hspares.quiet hpeer h.miss hknown
    exact Or.inr ((held?_of_known hafter).trans hsequence)

/-- Afterwards the player is gone, or the number accepted is held, or still the one before. -/
theorem Undisturbed.held (hpeer : peer.Consistent) (h : Undisturbed σ peer e activity) :
    (peer.perform σ activity).1.player? e = none ∨
      (peer.perform σ activity).1.held? e = (peer.accepts? σ e activity).or (peer.held? e) := by
  cases hknown : peer.player? e with
  | none => exact Or.inl (h.discovery hknown)
  | some r =>
      cases haccepts : peer.accepts? σ e activity with
      | none =>
          rw [Option.none_or, held?_of_known hknown]
          exact h.kept hpeer haccepts hknown
      | some s =>
          obtain ⟨response, r, p, leaf, rfl, haccepted⟩ := accepts?_eq_some_iff.1 haccepts
          have hafter := haccepted.player? hpeer
          split at hafter
          · exact Or.inr (held?_of_known hafter)
          · exact Or.inl hafter

/-! All activities. -/

/-- Of a player that is gone nothing is accepted. -/
theorem UndisturbedAll.acceptedNumbers_eq_nil (h : UndisturbedAll σ peer e activities)
    (hunknown : peer.player? e = none) : peer.acceptedNumbers σ e activities = [] := by
  induction activities generalizing peer with
  | nil => rfl
  | cons activity activities ih =>
      rw [acceptedNumbers, accepts?_of_unknown hunknown, ih h.2 (h.1.discovery hunknown)]
      rfl

theorem isChain_toList {R : UInt32 → UInt32 → Prop} (held : Option UInt32) :
    List.IsChain R held.toList := by
  cases held with
  | none => exact .nil
  | some s => exact .singleton s

/-- A chain that goes on from what is accepted, or else from what is held, goes on from both. -/
theorem isChain_of_or {R : UInt32 → UInt32 → Prop} {held accepted : Option UInt32}
    {rest : List UInt32} (hrest : List.IsChain R ((accepted.or held).toList ++ rest))
    (hnext : ∀ s ∈ held, ∀ t ∈ accepted, R s t) :
    List.IsChain R (held.toList ++ (accepted.toList ++ rest)) := by
  cases accepted with
  | none => exact hrest
  | some t =>
      cases held with
      | none => exact hrest
      | some s => exact .cons_cons (hnext s rfl t rfl) hrest

theorem UndisturbedAll.isChain (hpeer : peer.Consistent) (hsize : peer.window.size ≠ 0)
    (hfits : ∀ s, peer.window.Fits s) (h : UndisturbedAll σ peer e activities) :
    List.IsChain peer.window.Advances
      ((peer.held? e).toList ++ peer.acceptedNumbers σ e activities) := by
  induction activities generalizing peer with
  | nil =>
      rw [acceptedNumbers, List.append_nil]
      exact isChain_toList _
  | cons activity activities ih =>
      obtain ⟨hfirst, hrest⟩ := h
      have hwindow : (peer.perform σ activity).1.window = peer.window :=
        congrArg Config.window (config_perform peer activity)
      have hchain := ih (hpeer.perform activity) (hwindow ▸ hsize) (hwindow ▸ hfits) hrest
      rw [hwindow] at hchain
      refine isChain_of_or ?_ fun held hheld s haccepts =>
        advances_of_accepts? hsize hfits haccepts hheld
      rcases hfirst.held hpeer with hgone | hheld
      · rw [hrest.acceptedNumbers_eq_nil hgone, List.append_nil]
        exact isChain_toList _
      · rwa [hheld] at hchain

/-- In a window of four numbers up to half of all words, newness orders the numbers but for the last
one and opposite ones. So from every reachable state and through anything but missed polls, resets
and discoveries of a player, each number under which its position is accepted lies up to half the
circle ahead of the one before, unless that was the last; so does the first, of the number held. -/
theorem accepted_advance {w : Window} (hfour : 4 ≤ w.size.toNat) (hhalf : w.size.toNat ≤ 2 ^ 31) :
    w.Orders ∧ ∀ (σ : Scheme) (peer : Peer) (e : EntityName) (activities : List Activity),
      peer.Reachable σ → peer.window = w → UndisturbedAll σ peer e activities →
        List.IsChain w.Advances ((peer.held? e).toList ++ peer.acceptedNumbers σ e activities) := by
  refine ⟨Window.orders_of_half (Nat.le_trans (by decide) hfour) hhalf, ?_⟩
  rintro σ peer e activities hpeer rfl hundisturbed
  have hsize : peer.window.size ≠ 0 :=
    Window.size_ne_zero_of_lt (s := 0) (Nat.lt_of_lt_of_le (by decide) hfour)
  exact hundisturbed.isChain hpeer.consistent hsize (Window.fits_of_half hsize hhalf)

theorem Undisturbed.of_hear {response : Response} (peer : Peer) (e name : EntityName)
    (h : ∀ goal reason, Payload.ofBytes response.content ≠ .ok (.reset goal reason)) :
    Undisturbed σ peer e (.operation (.hear name response)) where
  miss := rfl
  reset _ goal hactivity hresets := by
    cases hactivity
    obtain ⟨-, -, reason, hread⟩ := hresets
    exact h goal reason hread
  discovery hunknown := (descends_hear peer name response).player?_eq_none hunknown

/-- Numbers of a window of eight are accepted past its end and past its start, where 7 is held even
after itself; what is stale is not among them. -/
theorem accepted_advance_bob : ∃ (peer : Peer) (activities : List Activity),
    peer.Reachable .sealing ∧ peer.window.size = 8 ∧ peer.window.Orders ∧
      UndisturbedAll .sealing peer ⟨"/hub", "bob"⟩ activities ∧ activities.length = 8 ∧
      peer.held? ⟨"/hub", "bob"⟩ = some 3 ∧
      peer.acceptedNumbers .sealing ⟨"/hub", "bob"⟩ activities = [6, 1, 5, 7, 7, 2] ∧
      List.IsChain peer.window.Advances [3, 6, 1, 5, 7, 7, 2] := by
  let config : Config :=
    { hub := "/hub", depth := 2, worldBits := 2, windowSize := 8, behindThreshold := 3 }
  let bob : EntityName := ⟨"/hub", "bob"⟩
  let sealed (name : Name) (content : String) : Response :=
    ⟨name, Text.bytesOf content, 0, 0, Response.signable name (Text.bytesOf content) 0 0, []⟩
  let hear (s : UInt32) : Operation := .hear bob (sealed (bob.numbered s) "0,0,0")
  let operations : List Operation :=
    [.track ⟨[0, 0]⟩, .learn (sealed .root "/hub:bob 0/0\n"), hear 3]
  let activities : List Activity := [6, 1, 6, 5, 7, 7, 2, 7].map (.operation <| hear ·)
  have hmade : (made? config "alice" ⟨.zero, .zero, .zero⟩ []).any (fun start =>
      let peer := start.run .sealing operations
      decide (peer.window.size = 8 ∧ peer.held? bob = some 3 ∧
        peer.acceptedNumbers .sealing bob activities = [6, 1, 5, 7, 7, 2])) = true := by
    decide +kernel
  obtain ⟨start, hstart, hreached⟩ := exists_make hmade
  obtain ⟨hsize, hheld, hnumbers⟩ := of_decide_eq_true hreached
  have hpeer : (start.run .sealing operations).Reachable .sealing :=
    ⟨config, _, _, _, start, operations, hstart, rfl⟩
  have hundisturbed : UndisturbedAll .sealing (start.run .sealing operations) bob activities := by
    have hhear : ∀ (peer : Peer) (s : UInt32),
        Undisturbed .sealing peer bob (.operation (hear s)) := by
      intro peer s
      refine .of_hear peer bob bob fun goal reason => ?_
      have hread : Payload.ofBytes (Text.bytesOf "0,0,0") = .ok (.position ⟨.zero, .zero, .zero⟩) :=
        by decide +kernel
      rw [show (sealed (bob.numbered s) "0,0,0").content = _ from rfl, hread]
      exact nofun
    exact ⟨hhear _ 6, hhear _ 1, hhear _ 6, hhear _ 5, hhear _ 7, hhear _ 7, hhear _ 2, hhear _ 7,
      trivial⟩
  obtain ⟨horders, hchain⟩ := accepted_advance (w := (start.run .sealing operations).window)
    (by rw [hsize]; decide) (by rw [hsize]; decide)
  have hrun := hchain .sealing _ bob activities hpeer rfl hundisturbed
  rw [hheld, hnumbers] at hrun
  exact ⟨_, activities, hpeer, hsize, horders, hundisturbed, rfl, hheld, hnumbers, hrun⟩

end RegionSync.Peer
