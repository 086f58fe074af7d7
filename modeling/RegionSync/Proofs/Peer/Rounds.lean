import RegionSync.Proofs.Peer.Polling

/-!
Rounds of polling. In a round a peer polls the players that it knows, and one of them answers. A round
in which some player cannot be polled ends in a fault, and leaves the table as far as it was gone
through: the players up to that one count as polled, although no poll was sent. So a player behind it
is reached in a later round, and a player before it waits forever for an answer that nobody gives. In
which order the table stands is not up to the peer.
-/

namespace RegionSync

/-- How many players cannot be polled. -/
def RemotePlayer.jams (players : List RemotePlayer) : Nat :=
  players.countP fun r => r.Jammed

theorem RemotePlayer.jams_eq_zero_iff {players : List RemotePlayer} :
    jams players = 0 ↔ ∀ r ∈ players, ¬ r.Jammed := by
  simp [jams, List.countP_eq_zero]

/-- The entry is at this number and position. -/
def RemotePlayer.IsAt (r : RemotePlayer) (c : UInt32) (p : Point) : Prop :=
  r.sequence = some c ∧ r.location = .known p

theorem RemotePlayer.IsAt.of_awaited_eq {r r' : RemotePlayer} {c : UInt32} {p : Point}
    (h : r.IsAt c p) (hsame : r'.awaited = r.awaited) : r'.IsAt c p := by
  have hsequence : r'.sequence = r.sequence := congrArg (·.sequence) hsame
  have hlocation : r'.location = r.location := congrArg (·.location) hsame
  exact ⟨hsequence.trans h.1, hlocation.trans h.2⟩

theorem Outcome.eq_mk {α : Type} {outcome : Outcome α} {value : α} {events : List Event}
    (hvalue : outcome.value = value) (hevents : outcome.events = events) :
    outcome = ⟨value, outcome.peer, events⟩ := by
  rw [← hvalue, ← hevents]

namespace Peer

open RemotePlayer (jams)

variable {σ : Scheme} {responder requester peer : Peer} {r q : RemotePlayer} {c : UInt32} {p : Point}
  {e : EntityName} {w : Window} {before after : List RemotePlayer} {n : Nat}

/-- An answer is heard; without one the poll is missed. -/
def conclude (σ : Scheme) (requester : Peer) (e : EntityName) :
    Except WireError (Except Fault (PlayerReply × List Event)) → Outcome (Except Fault Unit)
  | .ok (.error fault) => requester.quietly (.error fault)
  | .ok (.ok (.answered (some response), _)) => requester.hear σ e response
  | _ => requester.miss e

/-- A round: the requester polls, and the responder answers the poll of its own player. A fault leaves
the state that the round had reached. -/
def round (σ : Scheme) (responder requester : Peer) (timestamp : UInt64) :
    Outcome (Except Fault Unit) :=
  let polling := requester.polls.peer
  match requester.polls.value with
  | .error fault => polling.quietly (.error fault)
  | .ok polls =>
    match polls.find? (·.1 == responder.self.name) with
    | none => polling.quietly (.ok ())
    | some poll =>
      conclude σ polling responder.self.name (responder.answerPlayer σ poll.2.name timestamp)

/-- The requester after rounds answered at the times given, and its reports. The next round goes on
with what the last one left, be it after a fault. -/
def rounds (σ : Scheme) (responder : Peer) :
    Nat → (Nat → UInt64) → Peer → Peer × List Event
  | 0, _, requester => (requester, [])
  | n + 1, times, requester =>
    let first := round σ responder requester (times 0)
    let (after, more) := rounds σ responder n (fun i => times (i + 1)) first.peer
    (after, first.events ++ more)

/-- Within so many rounds the requester holds this number and position of the responder's player,
and does not drop the player on the way. -/
def CatchesUp (σ : Scheme) (responder : Peer) (c : UInt32) (p : Point) (n : Nat)
    (requester : Peer) : Prop :=
  ∀ times, ∃ k, 1 ≤ k ∧ k ≤ n ∧
    (∃ r, (rounds σ responder k times requester).1.player? responder.self.name = some r ∧
      r.IsAt c p) ∧
    .located responder.self.name .dropped ∉ (rounds σ responder k times requester).2

theorem CatchesUp.of_round (h : ∀ timestamp,
    .located responder.self.name .dropped ∉ (round σ responder requester timestamp).events ∧
      CatchesUp σ responder c p n (round σ responder requester timestamp).peer) :
    CatchesUp σ responder c p (n + 1) requester := by
  intro times
  obtain ⟨hkept, hrest⟩ := h (times 0)
  obtain ⟨k, hk, hkn, hdone, hkept'⟩ := hrest fun i => times (i + 1)
  refine ⟨k + 1, by omega, by omega, hdone, ?_⟩
  rw [rounds]
  dsimp only
  rw [List.mem_append, not_or]
  exact ⟨hkept, hkept'⟩

theorem CatchesUp.of_last_round (h : ∀ timestamp,
    .located responder.self.name .dropped ∉ (round σ responder requester timestamp).events ∧
      ∃ r, (round σ responder requester timestamp).peer.player? responder.self.name = some r ∧
        r.IsAt c p) :
    CatchesUp σ responder c p 1 requester := by
  intro times
  obtain ⟨hkept, hdone⟩ := h (times 0)
  refine ⟨1, Nat.le_refl 1, Nat.le_refl 1, hdone, ?_⟩
  rw [rounds, rounds]
  dsimp only
  rw [List.append_nil]
  exact hkept

theorem CatchesUp.mono {m : Nat} (h : CatchesUp σ responder c p n requester) (hle : n ≤ m) :
    CatchesUp σ responder c p m requester := by
  intro times
  obtain ⟨k, hk, hkn, hrest⟩ := h times
  exact ⟨k, hk, hkn.trans hle, hrest⟩

/-! What polling leaves of the table. -/

/-- Polling leaves of an entry all but the note that a poll is out. -/
theorem player?_polls (h : peer.player? e = some r) :
    ∃ r', peer.polls.peer.player? e = some r' ∧ r'.awaited = r.awaited := by
  have hframe : peer.polls.peer.players.map RemotePlayer.awaited =
      peer.players.map RemotePlayer.awaited :=
    pollAll_frame peer.window peer.config.positionTimeout.toNat peer.players
  have hfind : ∀ x : Peer, (x.players.map RemotePlayer.awaited).find? (·.name == e) =
      (x.player? e).map RemotePlayer.awaited := fun x => List.find?_map ..
  have hsame := hfind peer.polls.peer
  rw [hframe, hfind, h, eq_comm, Option.map_some, Option.map_eq_some_iff] at hsame
  exact hsame

/-- A poll that is out stays out. -/
theorem mem_polls_of_polled (hw : peer.window.Fair) (hr : r ∈ peer.players)
    (hpolled : r.polled = true) : r ∈ peer.polls.peer.players := by
  have hkept : ∀ {players : List RemotePlayer}, r ∈ players →
      r ∈ players.map RemotePlayer.awaited := fun hmem =>
    List.mem_map.2 ⟨r, hmem, RemotePlayer.awaited_eq hpolled⟩
  by_cases hjammed : ∃ q ∈ peer.players, q.Jammed
  · obtain ⟨before, q, after, hplayers, hbefore, hq⟩ := exists_first_jammed hjammed
    have hpolls := pollAll_of_first_jammed hw peer.config.positionTimeout.toNat after hbefore hq
    rw [← hplayers] at hpolls
    change r ∈ (pollAll peer.window peer.config.positionTimeout.toNat peer.players).1
    rw [hpolls]
    rw [hplayers, List.mem_append, List.mem_cons] at hr
    rw [List.mem_append, List.mem_cons]
    rcases hr with hr | rfl | hr
    · exact Or.inl (hkept hr)
    · exact absurd hq (RemotePlayer.not_jammed_of_polled hpolled)
    · exact Or.inr (Or.inr hr)
  · have hfree : ∀ q ∈ peer.players, ¬ q.Jammed := fun q hq hjam => hjammed ⟨q, hq, hjam⟩
    have hpolls := (pollAll_of_not_jammed hw peer.config.positionTimeout.toNat hfree).1
    change r ∈ (pollAll peer.window peer.config.positionTimeout.toNat peer.players).1
    rw [hpolls]
    exact hkept hr

/-- A player that cannot be polled is marked in place, and what stands behind it is not gone through. -/
theorem pollAll_of_jammed_before (hw : w.Fair) (lifetime : Nat) (rest : List RemotePlayer)
    (h : ∃ q ∈ before, q.Jammed) :
    ∃ before', pollAll w lifetime (before ++ rest) = (before' ++ rest, .error .overflow) ∧
      jams before' + 1 = jams before := by
  obtain ⟨first, q, last, rfl, hfirst, hq⟩ := exists_first_jammed h
  refine ⟨first.map RemotePlayer.awaited ++ q.awaited :: last, ?_, ?_⟩
  · rw [List.append_assoc, List.cons_append,
      pollAll_of_first_jammed hw lifetime (last ++ rest) hfirst hq, List.append_assoc,
      List.cons_append]
  · have hmarked : jams (first.map RemotePlayer.awaited) = 0 :=
      RemotePlayer.jams_eq_zero_iff.2 fun x hx => by
        obtain ⟨y, -, rfl⟩ := List.mem_map.1 hx
        exact y.not_jammed_awaited
    have hfree : jams first = 0 := RemotePlayer.jams_eq_zero_iff.2 hfirst
    simp only [jams] at hmarked hfree ⊢
    rw [List.countP_append, List.countP_append, List.countP_cons, List.countP_cons, hmarked, hfree]
    simp [hq, q.not_jammed_awaited]

/-- A player is marked before one behind it that cannot be polled. -/
theorem mem_pollAll_of_jammed_after (hw : w.Fair) (lifetime : Nat)
    (hbefore : ∀ q ∈ before, ¬ q.Jammed) (hr : ¬ r.Jammed) (h : ∃ q ∈ after, q.Jammed) :
    r.awaited ∈ (pollAll w lifetime (before ++ r :: after)).1 := by
  obtain ⟨first, q, last, rfl, hfirst, hq⟩ := exists_first_jammed h
  have hall : ∀ x ∈ before ++ r :: first, ¬ x.Jammed := by
    intro x hx
    rcases List.mem_append.1 hx with hx | hx
    · exact hbefore x hx
    · rcases List.mem_cons.1 hx with rfl | hx
      · exact hr
      · exact hfirst x hx
  have hpolls := pollAll_of_first_jammed hw lifetime last hall hq
  rw [List.append_assoc, List.cons_append] at hpolls
  rw [hpolls]
  exact List.mem_append_left _ (List.mem_map_of_mem (List.mem_append_right _ List.mem_cons_self))

/-! Rounds that end in a fault. -/

theorem round_of_jammed (hw : requester.window.Fair) (h : ∃ q ∈ requester.players, q.Jammed)
    (timestamp : UInt64) :
    round σ responder requester timestamp = requester.polls.peer.quietly (.error .overflow) := by
  have hpolls : requester.polls.value = .error .overflow := pollAll_of_jammed hw h
  rw [round, hpolls]

/-- The requester knows the responder's player and is to poll it, and takes any position that it is
served. -/
structure Follows (responder requester : Peer) (r : RemotePlayer) : Prop where
  consistent : requester.Consistent
  window : requester.window = responder.window
  known : requester.player? responder.self.name = some r
  idle : r.polled = false
  tracked : ∀ s p, responder.self.history.get? s = some p →
    ∃ leaf, requester.geometry.leaf? p = some leaf ∧ requester.isTracked leaf = true

/-- A fault caused by a player before it leaves the player as it was, with one fewer such player. -/
theorem Follows.fault (h : Follows responder requester r) (hw : responder.window.Fair)
    (hplayers : requester.players = before ++ r :: after) (hjammed : ∃ q ∈ before, q.Jammed) :
    ∃ before', requester.polls.peer.players = before' ++ r :: after ∧
      jams before' + 1 = jams before ∧ Follows responder requester.polls.peer r ∧
      ∀ timestamp, round σ responder requester timestamp =
        requester.polls.peer.quietly (.error .overflow) := by
  rw [← h.window] at hw
  obtain ⟨before', hpolls, hless⟩ := pollAll_of_jammed_before hw
    requester.config.positionTimeout.toNat (r :: after) hjammed
  rw [← hplayers] at hpolls
  have hleft : requester.polls.peer.players = before' ++ r :: after := congrArg Prod.fst hpolls
  have hconsistent : requester.polls.peer.Consistent := h.consistent.polls
  have hmem : r ∈ requester.polls.peer.players := by
    rw [hleft]
    exact List.mem_append_right _ List.mem_cons_self
  have hfault : ∃ q ∈ requester.players, q.Jammed := by
    obtain ⟨q, hq, hjam⟩ := hjammed
    exact ⟨q, hplayers ▸ List.mem_append_left _ hq, hjam⟩
  have hknown : requester.polls.peer.player? responder.self.name = some r :=
    (player?_eq_some_iff hconsistent.nodup).2 ⟨hmem, name_of_player? h.known⟩
  exact ⟨before', hleft, hless, ⟨hconsistent, h.window, hknown, h.idle, h.tracked⟩,
    round_of_jammed hw hfault⟩

/-- A poll of the player counts as out to which nobody gives an answer, or soon will: a player behind
it cannot be polled. -/
structure Stalled (responder requester : Peer) (r : RemotePlayer) : Prop where
  consistent : requester.Consistent
  fair : requester.window.Fair
  name : r.name = responder.self.name
  free : ¬ r.Jammed
  waits : r.awaited ∈ requester.players ∨
    ∃ before after, requester.players = before ++ r :: after ∧ ∃ q ∈ after, q.Jammed

namespace Stalled

/-- In a round nothing is heard of the player. -/
theorem peer_round (h : Stalled responder requester r) (timestamp : UInt64) :
    (round σ responder requester timestamp).peer = requester.polls.peer := by
  by_cases hjammed : ∃ q ∈ requester.players, q.Jammed
  · rw [round_of_jammed h.fair hjammed]
    rfl
  · have hfree : ∀ q ∈ requester.players, ¬ q.Jammed := fun q hq hjam => hjammed ⟨q, hq, hjam⟩
    have hpolled : r.awaited ∈ requester.players := by
      rcases h.waits with hpolled | ⟨before, after, hplayers, q, hq, hjam⟩
      · exact hpolled
      · refine absurd hjam (hfree q ?_)
        rw [hplayers]
        exact List.mem_append_right _ (List.mem_cons_of_mem _ hq)
    obtain ⟨-, polls, hpolls, hmem⟩ :=
      pollAll_of_not_jammed h.fair requester.config.positionTimeout.toNat hfree
    have hvalue : requester.polls.value = .ok polls := hpolls
    have hnone : polls.find? (·.1 == responder.self.name) = none := by
      refine List.find?_eq_none.2 fun poll hpoll hname => ?_
      obtain ⟨q, hq, hidle, name, -, rfl⟩ := (hmem poll).1 hpoll
      have hsame : q.name = r.awaited.name := (by simpa using hname : q.name = _).trans h.name.symm
      obtain rfl := eq_of_name_eq h.consistent.nodup hq hpolled hsame
      cases hidle
    rw [round, hvalue]
    dsimp only
    rw [hnone]
    rfl

theorem step (h : Stalled responder requester r) (timestamp : UInt64) :
    Stalled responder (round σ responder requester timestamp).peer r := by
  rw [h.peer_round]
  refine ⟨h.consistent.polls, h.fair, h.name, h.free, ?_⟩
  rcases h.waits with hpolled | ⟨before, after, hplayers, hafter⟩
  · exact Or.inl (mem_polls_of_polled h.fair hpolled rfl)
  · by_cases hbefore : ∃ q ∈ before, q.Jammed
    · obtain ⟨before', hpolls, -⟩ := pollAll_of_jammed_before h.fair
        requester.config.positionTimeout.toNat (r :: after) hbefore
      rw [← hplayers] at hpolls
      exact Or.inr ⟨before', after, congrArg Prod.fst hpolls, hafter⟩
    · have hmem := mem_pollAll_of_jammed_after h.fair requester.config.positionTimeout.toNat
        (fun q hq hjam => hbefore ⟨q, hq, hjam⟩) h.free hafter
      rw [← hplayers] at hmem
      exact Or.inl hmem

/-- The player is found with the number and position that it had. -/
theorem known (h : Stalled responder requester r) :
    ∃ r', requester.player? responder.self.name = some r' ∧ r'.awaited = r.awaited := by
  rcases h.waits with hpolled | ⟨before, after, hplayers, -⟩
  · exact ⟨r.awaited, (player?_eq_some_iff h.consistent.nodup).2 ⟨hpolled, h.name⟩, rfl⟩
  · refine ⟨r, (player?_eq_some_iff h.consistent.nodup).2 ⟨?_, h.name⟩, rfl⟩
    rw [hplayers]
    exact List.mem_append_right _ List.mem_cons_self

theorem rounds (h : Stalled responder requester r) (n : Nat) (times : Nat → UInt64) :
    Stalled responder (rounds σ responder n times requester).1 r := by
  induction n generalizing requester times with
  | zero => exact h
  | succ n ih => exact ih (h.step (times 0)) fun i => times (i + 1)

/-- However many rounds there are, the requester does not get to another number or position. -/
theorem not_catchesUp (h : Stalled responder requester r) (hnot : ¬ r.IsAt c p) (n : Nat) :
    ¬ CatchesUp σ responder c p n requester := by
  intro hcatches
  obtain ⟨k, -, -, ⟨r', hr', hat⟩, -⟩ := hcatches fun _ => 0
  obtain ⟨q, hq, hsame⟩ := (h.rounds (σ := σ) k fun _ => 0).known
  obtain rfl := Option.some.inj (hr'.symm.trans hq)
  exact hnot (hat.of_awaited_eq hsame.symm)

end Stalled

/-- Who is up to date stays so in a round that ends in a fault. -/
theorem catchesUp_of_isAt (hw : requester.window.Fair) (hjammed : ∃ q ∈ requester.players, q.Jammed)
    (hknown : requester.player? responder.self.name = some r) (hat : r.IsAt c p) :
    CatchesUp σ responder c p 1 requester := by
  refine .of_last_round fun timestamp => ?_
  rw [round_of_jammed hw hjammed]
  obtain ⟨r', hr', hsame⟩ := player?_polls hknown
  exact ⟨List.not_mem_nil, r', hr', hat.of_awaited_eq hsame⟩

end Peer

end RegionSync
