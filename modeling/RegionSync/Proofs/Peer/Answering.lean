import RegionSync.Proofs.Discovery.Query
import RegionSync.Proofs.Peer.Exchange
import RegionSync.Proofs.Position.Payload
import RegionSync.Proofs.Position.Window

/-!
A player and its polls. What a player has published stays to be served under its number, a poll is
read as it was meant, and the answer to it is read by the poller as it was given.
-/

namespace RegionSync

/-! Names of polls and answers. -/

namespace EntityName

theorem positionName_eq (e : EntityName) :
    e.positionName = ⟨e.playerName.components ++ ["position"]⟩ :=
  Name.child_of_not_mem (by decide) (by decide) e.playerName

def numbered (e : EntityName) (s : UInt32) : Name :=
  e.positionName.child (String.ofList (Text.decimal s.toNat))

theorem numbered_eq (e : EntityName) (s : UInt32) : e.numbered s =
    ⟨e.positionName.components ++ [String.ofList (Text.decimal s.toNat)]⟩ := by
  refine Name.child_of_not_mem ?_ ?_ e.positionName
  · rw [String.toList_ofList]
    intro hslash
    exact absurd (Text.isDigit_of_mem_decimal hslash) (by decide)
  · rw [String.toList_ofList]
    exact Text.decimal_ne_nil s.toNat

end EntityName

theorem Ask.ofName_positionName (e : EntityName) :
    Ask.ofName e.playerName e.positionName = .ok (.position none) := by
  simp [EntityName.positionName_eq, Ask.ofName, Name.rest?_append]

/-- A poll for a number is read as one for this number. -/
theorem Ask.ofName_numbered (e : EntityName) (s : UInt32) :
    Ask.ofName e.playerName (e.numbered s) = .ok (.position (some s)) := by
  rw [EntityName.numbered_eq, EntityName.positionName_eq, List.append_assoc, List.singleton_append]
  simp [Ask.ofName, Name.rest?_append, Text.readUInt32?_decimal]

theorem answerSequence_numbered (e : EntityName) (s : UInt32) :
    answerSequence e.positionName (e.numbered s) = .ok s := by
  rw [EntityName.numbered_eq, answerSequence, Name.rest?_append]
  dsimp only
  rw [String.toList_ofList, Text.readUInt32?_decimal]

/-- The reply to a poll for a number, by the distances to it and from it. -/
theorem Reply.to_some {w : Window} (hw : w.Fair) (c q : UInt32) (history : History) :
    Reply.to w (some c) history (some q) = .ok
      (if 1 ≤ w.steps c q ∧ w.steps c q ≤ w.ahead.toNat then .wait
        else if w.behind.toNat < w.steps q c then .answer q (.reset c "behind")
        else match history.get? q with
          | some p => .answer q (.position p)
          | none => .answer q (.reset c "missing")) := by
  rw [Reply.to, hw.relate]
  split
  · rfl
  · split
    · rfl
    · cases hfound : history.get? q with
      | some p => simp [bind, Except.bind, pure, Except.pure]
      | none => simp [bind, Except.bind, pure, Except.pure]

namespace Peer

variable {σ : Scheme} {peer : Peer} {r : RemotePlayer} {c s : UInt32}

/-! What was published. -/

theorem self_publish (h : peer.nextSequence = .ok s) :
    peer.publish.peer.self.sequence = some s ∧
      peer.publish.peer.self.history = peer.self.history.record s peer.self.position := by
  unfold publish
  rw [h]
  dsimp only
  split
  · exact ⟨rfl, rfl⟩
  · split
    · exact ⟨rfl, rfl⟩
    · obtain ⟨-, -, region, hself⟩ := relist_frame { peer with self := _ } _
      dsimp only [quietly]
      rw [hself]
      exact ⟨rfl, rfl⟩

theorem unpublished_step (peer : Peer) {operation : Operation} (hpublish : operation ≠ .publish) :
    (peer.step σ operation).1.self.sequence = peer.self.sequence ∧
      (peer.step σ operation).1.self.history = peer.self.history := by
  by_cases hmove : ∃ p, operation = .moveTo p
  · obtain ⟨p, rfl⟩ := hmove
    simp only [step, moveTo]
    split
    · next hok =>
        split at hok
        · cases hok
          exact ⟨rfl, rfl⟩
        · cases hok
    · exact ⟨rfl, rfl⟩
  · rw [self_step peer (fun p hp => hmove ⟨p, hp⟩) hpublish]
    exact ⟨rfl, rfl⟩

/-- An operation leaves the own number and history as they are, or publishes. -/
theorem published_step (peer : Peer) (operation : Operation) :
    (peer.step σ operation).1.self.sequence = peer.self.sequence ∧
        (peer.step σ operation).1.self.history = peer.self.history ∨
      ∃ s, peer.nextSequence = .ok s ∧ (peer.step σ operation).1.self.sequence = some s ∧
        (peer.step σ operation).1.self.history = peer.self.history.record s peer.self.position := by
  by_cases hpublish : operation = .publish
  · subst hpublish
    cases hnext : peer.nextSequence with
    | error fault =>
        have hsame : (peer.step σ .publish).1 = peer := by simp [step, publish, hnext, quietly]
        rw [hsame]
        exact Or.inl ⟨rfl, rfl⟩
    | ok s => exact Or.inr ⟨s, rfl, self_publish hnext⟩
  · exact Or.inl (unpublished_step peer hpublish)

theorem lt_of_nextSequence (hsize : 0 < peer.config.windowSize.toNat)
    (h : peer.nextSequence = .ok s) : s.toNat < peer.config.windowSize.toNat := by
  unfold nextSequence at h
  split at h
  · cases h
    exact hsize
  · exact Window.lt_of_next h

/-- The number of the last publication is in the window, and its position can be served. -/
theorem Reachable.published (h : peer.Reachable σ) (hc : peer.self.sequence = some c) :
    c.toNat < peer.config.windowSize.toNat ∧ ∃ p, peer.self.history.get? c = some p := by
  have hsize : 0 < peer.config.windowSize.toNat := by
    have := (Config.window_of_validate h.made.1).1
    omega
  refine h.induction (motive := fun peer => 0 < peer.config.windowSize.toNat →
    ∀ c, peer.self.sequence = some c → c.toNat < peer.config.windowSize.toNat ∧
      ∃ p, peer.self.history.get? c = some p) ?_ ?_ hsize c hc
  · intro config id position secret start hstart _ c hc
    obtain ⟨-, -, -, -, -, -, hpeer⟩ := make_eq_ok hstart
    rw [hpeer] at hc
    cases hc
  · intro before operation hbefore hsize c hc
    have hconfig : (before.step σ operation).1.config = before.config :=
      congrArg Identity.config (identity_step before operation)
    rw [hconfig] at hsize ⊢
    rcases published_step before operation with
      ⟨hsequence, hhistory⟩ | ⟨s, hnext, hsequence, hhistory⟩
    · rw [hsequence] at hc
      rw [hhistory]
      exact hbefore hsize c hc
    · rw [hsequence] at hc
      cases hc
      rw [hhistory]
      exact ⟨lt_of_nextSequence hsize hnext, before.self.position, History.get?_record ..⟩

/-! Answers. -/

theorem replyTo_none (hc : peer.self.sequence = some c) {p : Point}
    (hp : peer.self.history.get? c = some p) :
    peer.replyTo none = .ok (.answer c (.position p)) := by
  rw [replyTo, hc, Reply.to, hp]

theorem replyTo_some (hw : peer.window.Fair) (hc : peer.self.sequence = some c) (q : UInt32) :
    peer.replyTo (some q) = .ok
      (if 1 ≤ peer.window.steps c q ∧ peer.window.steps c q ≤ peer.window.ahead.toNat then .wait
        else if peer.window.behind.toNat < peer.window.steps q c then .answer q (.reset c "behind")
        else match peer.self.history.get? q with
          | some p => .answer q (.position p)
          | none => .answer q (.reset c "missing")) := by
  rw [replyTo, hc, Reply.to_some hw]

/-- The poller reads the answer as the player gave it. -/
theorem exists_answer (hσ : σ.Sound) {name : Name} {requested : Option UInt32} {payload : Payload}
    (hask : Ask.ofName peer.self.name.playerName name = .ok (.position requested))
    (hreply : peer.replyTo requested = .ok (.answer s payload)) (timestamp : UInt64) :
    ∃ response, peer.answerPlayer σ name timestamp = .ok (.ok (.answered (some response), [])) ∧
      readAnswer σ peer.self.name response = (some (s, payload), []) := by
  obtain ⟨response, hsigned, hrespond, hname, hcontent⟩ := exists_signed (σ := σ) peer
    (peer.self.name.numbered s) payload.bytes peer.config.positionFreshness.toNat_lt timestamp
  refine ⟨response, ?_, ?_⟩
  · have hsign : peer.signPosition σ s payload timestamp = (some response, []) := hsigned
    simp [answerPlayer, hask, hreply, hsign, bind, Except.bind, pure, Except.pure]
  · have hparse : parseAnswer peer.self.name response = .ok (s, payload) := by
      simp [parseAnswer, hname, hcontent, answerSequence_numbered, Payload.ofBytes_bytes, bind,
        Except.bind, pure, Except.pure]
    simp [readAnswer, distrust, Scheme.check_respond hσ hrespond, hparse]

theorem answerPlayer_wait {name : Name} {requested : Option UInt32}
    (hask : Ask.ofName peer.self.name.playerName name = .ok (.position requested))
    (hreply : peer.replyTo requested = .ok .wait) (timestamp : UInt64) :
    peer.answerPlayer σ name timestamp = .ok (.ok (.wait, [])) := by
  simp [answerPlayer, hask, hreply, bind, Except.bind, pure, Except.pure]

end Peer

end RegionSync
