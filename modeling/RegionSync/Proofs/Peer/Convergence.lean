import RegionSync.Proofs.Peer.Rounds

/-!
A peer that polls a player catches up with it, unless another player that cannot be polled stands
behind it in the table. The player's current number and the last one that the poller has seen differ by
a distance on the circle: close behind, each answer from history shortens it; far behind, or where
history has a gap, a reset leads to the current number; ahead, a missed answer makes the poller start
over. All ways end at the current position within as many rounds as history serves numbers, and two
more; each player that cannot be polled and stands before it takes one round in addition.
-/

namespace RegionSync.Peer

variable {σ : Scheme} {responder requester after : Peer} {r r' : RemotePlayer} {c s : UInt32}
  {p : Point} {events : List Event} {n : Nat}

/-- The requester can poll everybody, and among them the responder's player. -/
structure Polls (responder requester : Peer) (r : RemotePlayer) : Prop
    extends Follows responder requester r where
  free : ∀ q ∈ requester.players, ¬ q.Jammed

/-- What the responder published last, in a fair window. -/
structure Current (responder : Peer) (c : UInt32) (p : Point) : Prop where
  fair : responder.window.Fair
  number : responder.self.sequence = some c
  stored : responder.self.history.get? c = some p
  lt : c.toNat < responder.window.size.toNat

/-! One round. -/

/-- The number that the next poll of a player asks for, if any. -/
def asked (w : Window) (r : RemotePlayer) : Except Fault (Option UInt32) :=
  match r.sequence with
  | none => .ok none
  | some s => (w.next s).map some

theorem asked_of_next {w : Window} {q : UInt32} (hr : r.sequence = some s)
    (hnext : w.next s = .ok q) : asked w r = .ok (some q) := by
  rw [asked, hr]
  dsimp only
  rw [hnext]
  rfl

theorem ask_of_asked {w : Window} {requested : Option UInt32} (h : asked w r = .ok requested) :
    ∃ name, pollName w r = .ok name ∧
      Ask.ofName r.name.playerName name = .ok (.position requested) := by
  unfold asked at h
  unfold pollName
  cases hsequence : r.sequence with
  | none =>
      rw [hsequence] at h
      cases h
      exact ⟨_, rfl, Ask.ofName_positionName r.name⟩
  | some s =>
      rw [hsequence] at h
      dsimp only at h ⊢
      cases hnext : w.next s with
      | error => simp [hnext, Except.map] at h
      | ok t =>
          rw [hnext] at h
          cases h
          exact ⟨_, rfl, Ask.ofName_numbered r.name t⟩

namespace Polls

variable {requested : Option UInt32}

theorem name_eq (h : Polls responder requester r) : r.name = responder.self.name :=
  name_of_player? h.known

theorem players_polls (h : Polls responder requester r) (hw : responder.window.Fair) :
    requester.polls.peer.players = requester.players.map RemotePlayer.awaited :=
  (pollAll_of_not_jammed (h.window ▸ hw) _ h.free).1

theorem player?_polls (h : Polls responder requester r) (hw : responder.window.Fair) :
    requester.polls.peer.player? responder.self.name = some r.awaited := by
  have hfound := h.known
  rw [player?] at hfound
  rw [player?, h.players_polls hw, List.find?_map]
  exact congrArg (Option.map RemotePlayer.awaited) hfound

theorem round_eq (h : Polls responder requester r) (hw : responder.window.Fair)
    (hasked : asked responder.window r = .ok requested) :
    ∃ name, Ask.ofName responder.self.name.playerName name = .ok (.position requested) ∧
      ∀ timestamp, round σ responder requester timestamp =
        conclude σ requester.polls.peer responder.self.name
          (responder.answerPlayer σ name timestamp) := by
  rw [← h.window] at hw hasked
  obtain ⟨name, hname, hask⟩ := ask_of_asked hasked
  rw [h.name_eq] at hask
  obtain ⟨-, polls, hpolls, hmem⟩ :=
    pollAll_of_not_jammed hw requester.config.positionTimeout.toNat h.free
  have hvalue : requester.polls.value = .ok polls := hpolls
  have hsent : (r.name, ⟨name, requester.config.positionTimeout.toNat, true⟩) ∈ polls :=
    (hmem _).2 ⟨r, mem_of_player? h.known, h.idle, name, hname, rfl⟩
  refine ⟨name, hask, fun timestamp => ?_⟩
  cases hfound : polls.find? (·.1 == responder.self.name) with
  | none => exact absurd h.name_eq (by simpa using List.find?_eq_none.1 hfound _ hsent)
  | some poll =>
      have hpoll : poll.1 = responder.self.name := by simpa using List.find?_some hfound
      obtain ⟨q, hq, -, other, hother, rfl⟩ := (hmem poll).1 (List.mem_of_find?_eq_some hfound)
      -- Names differ in the table, so the poll found is that of the entry.
      obtain rfl := eq_of_name_eq h.consistent.nodup hq (mem_of_player? h.known)
        (hpoll.trans h.name_eq.symm)
      rw [hname] at hother
      cases hother
      simp [round, hvalue, hfound]

/-- After an operation on the polled player, the requester can poll it again. -/
theorem after_step (h : Polls responder requester r) (hw : responder.window.Fair)
    (operation : Operation)
    (hothers : ∀ q ∈ (requester.polls.peer.step σ operation).1.players,
      q.name ≠ responder.self.name → q ∈ requester.polls.peer.players)
    (htracked : ∀ leaf, (requester.polls.peer.step σ operation).1.isTracked leaf =
      requester.polls.peer.isTracked leaf)
    (hknown : (requester.polls.peer.step σ operation).1.player? responder.self.name = some r')
    (hidle : r'.polled = false) (hfree : r'.sequence ≠ some 0xFFFFFFFF) :
    Polls responder (requester.polls.peer.step σ operation).1 r' := by
  have hidentity : (requester.polls.peer.step σ operation).1.identity = requester.identity :=
    identity_step requester.polls.peer operation
  have hconsistent : (requester.polls.peer.step σ operation).1.Consistent :=
    h.consistent.polls.step operation
  refine ⟨⟨hconsistent, ?_, hknown, hidle, ?_⟩, ?_⟩
  · exact (congrArg (·.config.window) hidentity).trans h.window
  · intro s p hserved
    obtain ⟨leaf, hleaf, hin⟩ := h.tracked s p hserved
    refine ⟨leaf, ?_, (htracked leaf).trans hin⟩
    rw [show (requester.polls.peer.step σ operation).1.geometry = requester.geometry from
      congrArg (·.geometry) hidentity]
    exact hleaf
  · intro q hq hjammed
    by_cases hname : q.name = responder.self.name
    · have heq := eq_of_name_eq hconsistent.nodup hq (mem_of_player? hknown)
        (hname.trans (name_of_player? hknown).symm)
      rw [heq] at hjammed
      exact hfree hjammed.2
    · -- The polls of all others are out.
      have hpolled := hothers q hq hname
      rw [h.players_polls hw] at hpolled
      obtain ⟨x, -, rfl⟩ := List.mem_map.1 hpolled
      exact x.not_jammed_awaited hjammed

/-- A round whose answer the requester makes something of. -/
theorem heard (h : Polls responder requester r) (hw : responder.window.Fair) (hσ : σ.Sound)
    (hasked : asked responder.window r = .ok requested) {payload : Payload}
    (hreply : responder.replyTo requested = .ok (.answer s payload))
    (hhear : ∀ response, readAnswer σ responder.self.name response = (some (s, payload), []) →
      (requester.polls.peer.hear σ responder.self.name response).value = .ok () ∧
        (requester.polls.peer.hear σ responder.self.name response).events = events ∧
        (requester.polls.peer.hear σ responder.self.name response).peer.player?
          responder.self.name = some r')
    (hidle : r'.polled = false) (hfree : r'.sequence ≠ some 0xFFFFFFFF) (timestamp : UInt64) :
    ∃ after, round σ responder requester timestamp = ⟨.ok (), after, events⟩ ∧
      Polls responder after r' := by
  obtain ⟨name, hask, hround⟩ := h.round_eq hw hasked
  obtain ⟨response, hanswer, hread⟩ := exists_answer hσ hask hreply timestamp
  obtain ⟨hvalue, hevents, hknown⟩ := hhear response hread
  refine ⟨_, ?_, h.after_step hw (.hear responder.self.name response)
    (fun q hq hne => mem_of_mem_hear hq hne) (fun leaf => isTracked_hear ..) hknown hidle hfree⟩
  rw [hround, hanswer]
  exact Outcome.eq_mk hvalue hevents

/-- A position from history that is newer than what the requester has brings it on. -/
theorem served (h : Polls responder requester r) (hw : responder.window.Fair) (hσ : σ.Sound)
    (hasked : asked responder.window r = .ok requested)
    (hreply : responder.replyTo requested = .ok (.answer s (.position p)))
    (hstored : responder.self.history.get? s = some p) (hs : s ≠ 0xFFFFFFFF)
    (hnewer : responder.window.isNewer r.sequence s = .ok true) (timestamp : UInt64) :
    ∃ after r', round σ responder requester timestamp =
      ⟨.ok (), after, [.located responder.self.name (.known p)]⟩ ∧ Polls responder after r' ∧
        r'.IsAt s p := by
  obtain ⟨leaf, hleaf, htracked⟩ := h.tracked s p hstored
  have hconsistent : requester.polls.peer.Consistent := h.consistent.polls
  rw [← h.window] at hnewer
  obtain ⟨after, hround, hpolls⟩ := h.heard hw hσ hasked hreply
    (fun response hread => hear_position hconsistent (h.player?_polls hw) hread hnewer hleaf htracked)
    rfl (fun heq => hs (Option.some.inj heq)) timestamp
  exact ⟨after, _, hround, hpolls, rfl, rfl⟩

/-- A reset moves the requester right before the number to go on from. -/
theorem reset (h : Polls responder requester r) (hw : responder.window.Fair) (hσ : σ.Sound)
    (hasked : asked responder.window r = .ok requested) {reason : String}
    (hreply : responder.replyTo requested = .ok (.answer s (.reset c reason))) {t : UInt32}
    (hprev : responder.window.prev c = .ok t) (ht : t ≠ 0xFFFFFFFF) (timestamp : UInt64) :
    ∃ after r', round σ responder requester timestamp = ⟨.ok (), after, []⟩ ∧
      Polls responder after r' ∧ r'.sequence = some t := by
  rw [← h.window] at hprev
  obtain ⟨after, hround, hpolls⟩ := h.heard hw hσ hasked hreply
    (fun response hread => hear_reset (h.player?_polls hw) hread hprev) rfl
    (fun heq => ht (Option.some.inj heq)) timestamp
  exact ⟨after, _, hround, hpolls, rfl⟩

/-- A number that is not produced yet makes the requester start over. -/
theorem waited (h : Polls responder requester r) (hw : responder.window.Fair)
    (hasked : asked responder.window r = .ok requested)
    (hreply : responder.replyTo requested = .ok .wait)
    (hfew : r.timeouts < requester.config.dropThreshold) (timestamp : UInt64) :
    ∃ after r', round σ responder requester timestamp = ⟨.ok (), after, []⟩ ∧
      Polls responder after r' ∧ r'.sequence = none := by
  obtain ⟨name, hask, hround⟩ := h.round_eq (σ := σ) hw hasked
  have hanswer := answerPlayer_wait (σ := σ) hask hreply timestamp
  rw [UInt32.lt_iff_toNat_lt] at hfew
  have hlimit := requester.config.dropThreshold.toNat_lt
  have hone : (1 : UInt32).toNat = 1 := rfl
  obtain ⟨timeouts, hcount, hcountN⟩ :=
    Word.exists_add (a := r.timeouts) (b := 1) (by omega)
  have hkept : timeouts ≤ requester.polls.peer.config.dropThreshold := by
    rw [UInt32.le_iff_toNat_le, hcountN, hone]
    exact hfew
  obtain ⟨hvalue, hevents, hknown⟩ := miss_kept (h.player?_polls hw) hcount hkept
  have hmiss : conclude σ requester.polls.peer responder.self.name (.ok (.ok (.wait, []))) =
      requester.polls.peer.miss responder.self.name := rfl
  refine ⟨_, _, ?_, h.after_step (σ := σ) hw (.miss responder.self.name)
    (fun q hq hne => mem_of_mem_miss hq hne) (fun leaf => isTracked_miss ..) hknown rfl ?_, rfl⟩
  · rw [hround, hanswer, hmiss]
    exact Outcome.eq_mk hvalue hevents
  · intro heq
    cases heq

/-! Catching up. -/

theorem catchesUp_served (h : Polls responder requester r) (hcurrent : Current responder c p)
    (hσ : σ.Sound) (hasked : asked responder.window r = .ok requested)
    (hreply : responder.replyTo requested = .ok (.answer c (.position p)))
    (hnewer : responder.window.isNewer r.sequence c = .ok true) :
    CatchesUp σ responder c p 1 requester := by
  refine .of_last_round fun timestamp => ?_
  obtain ⟨after, r', hround, hpolls, hat⟩ := h.served hcurrent.fair hσ hasked hreply
    hcurrent.stored (hcurrent.fair.ne_last hcurrent.lt) hnewer timestamp
  rw [hround]
  exact ⟨by simp, r', hpolls.known, hat⟩

theorem catchesUp_afresh (h : Polls responder requester r) (hcurrent : Current responder c p)
    (hσ : σ.Sound) (hr : r.sequence = none) : CatchesUp σ responder c p 1 requester := by
  have hasked : asked responder.window r = .ok none := by rw [asked, hr]
  apply h.catchesUp_served hcurrent hσ hasked
  · exact replyTo_none hcurrent.number hcurrent.stored
  · rw [hr]
    rfl

theorem catchesUp_next (h : Polls responder requester r) (hcurrent : Current responder c p)
    (hσ : σ.Sound) (hr : r.sequence = some s) (hs : s.toNat < responder.window.size.toNat)
    (hnext : responder.window.next s = .ok c) : CatchesUp σ responder c p 1 requester := by
  apply h.catchesUp_served hcurrent hσ (asked_of_next hr hnext)
  · rw [replyTo_some hcurrent.fair hcurrent.number, Window.steps_self hcurrent.lt,
      if_neg (by omega), if_neg (Nat.not_lt_zero _), hcurrent.stored]
  · rw [hr]
    exact hcurrent.fair.isNewer_next hs hnext

theorem catchesUp_reset (h : Polls responder requester r) (hcurrent : Current responder c p)
    (hσ : σ.Sound) (hasked : asked responder.window r = .ok requested) {reason : String}
    (hreply : responder.replyTo requested = .ok (.answer s (.reset c reason))) :
    CatchesUp σ responder c p 2 requester := by
  refine .of_round fun timestamp => ?_
  obtain ⟨t, hprev, htlt, hnext⟩ := Window.exists_prev hcurrent.lt (hcurrent.fair.fits c)
  obtain ⟨after, r', hround, hpolls, hsequence⟩ := h.reset hcurrent.fair hσ hasked hreply hprev
    (hcurrent.fair.ne_last htlt) timestamp
  rw [hround]
  exact ⟨List.not_mem_nil, hpolls.catchesUp_next hcurrent hσ hsequence htlt hnext⟩

/-- A requester that is not further behind than history reaches catches up number by number, unless
a gap in history takes it to the end at once. -/
theorem catchesUp_behind (h : Polls responder requester r) (hcurrent : Current responder c p)
    (hσ : σ.Sound) {q : UInt32} (hr : r.sequence = some s)
    (hs : s.toNat < responder.window.size.toNat) (hnext : responder.window.next s = .ok q)
    {lag : Nat} (hlag : responder.window.steps q c = lag)
    (hle : lag ≤ responder.window.behind.toNat) :
    CatchesUp σ responder c p (lag + 2) requester := by
  have hw := hcurrent.fair
  -- The lag shrinks with every number served, until the next number is the current one.
  induction lag generalizing requester r s q with
  | zero =>
      have hq := (Window.of_next hs hnext).1
      obtain rfl := Window.eq_of_steps_eq_zero hq hcurrent.lt hlag
      exact (h.catchesUp_next hcurrent hσ hr hs hnext).mono (by omega)
  | succ lag ih =>
      have hq := (Window.of_next hs hnext).1
      have hasked := asked_of_next hr hnext
      have hroom := hw.room
      have hround := Window.steps_add_steps hq hcurrent.lt (by omega)
      have hreply := replyTo_some hw hcurrent.number q
      rw [if_neg (by omega), if_neg (by omega)] at hreply
      cases hfound : responder.self.history.get? q with
      | none =>
          rw [hfound] at hreply
          exact (h.catchesUp_reset hcurrent hσ hasked hreply).mono (by omega)
      | some old =>
          rw [hfound] at hreply
          refine .of_round fun timestamp => ?_
          have hnewer : responder.window.isNewer r.sequence q = .ok true := by
            rw [hr]
            exact hw.isNewer_next hs hnext
          obtain ⟨after, r', hserved, hpolls, hat⟩ :=
            h.served hw hσ hasked hreply hfound (hw.ne_last hq) hnewer timestamp
          obtain ⟨t, ht, -⟩ := Window.exists_next hq
          have hless := Window.steps_next hq hcurrent.lt ht hlag
          rw [hserved]
          exact ⟨by simp, ih hpolls hat.1 hq ht hless (by omega)⟩

theorem catchesUp (h : Polls responder requester r) (hcurrent : Current responder c p)
    (hσ : σ.Sound) (hr : ∀ s, r.sequence = some s → s.toNat < responder.window.size.toNat)
    (hfew : r.timeouts < requester.config.dropThreshold) :
    CatchesUp σ responder c p (responder.window.behind.toNat + 2) requester := by
  have hw := hcurrent.fair
  cases hsequence : r.sequence with
  | none => exact (h.catchesUp_afresh hcurrent hσ hsequence).mono (by omega)
  | some s =>
      have hs := hr s hsequence
      obtain ⟨q, hnext, hq, -⟩ := Window.exists_next hs
      have hasked := asked_of_next hsequence hnext
      have hreply := replyTo_some hw hcurrent.number q
      by_cases hahead : 1 ≤ responder.window.steps c q ∧
          responder.window.steps c q ≤ responder.window.ahead.toNat
      · rw [if_pos hahead] at hreply
        refine CatchesUp.mono (n := 2) (.of_round fun timestamp => ?_) (by omega)
        obtain ⟨after, r', hround, hpolls, hnone⟩ := h.waited hw hasked hreply hfew timestamp
        rw [hround]
        exact ⟨List.not_mem_nil, hpolls.catchesUp_afresh hcurrent hσ hnone⟩
      · rw [if_neg hahead] at hreply
        by_cases hbehind : responder.window.behind.toNat < responder.window.steps q c
        · rw [if_pos hbehind] at hreply
          exact (h.catchesUp_reset hcurrent hσ hasked hreply).mono (by omega)
        · exact (h.catchesUp_behind hcurrent hσ hsequence hs hnext rfl (by omega)).mono (by omega)

end Polls

/-- The number after one in the window is a word. -/
theorem not_jammed_of_lt {w : Window} (hw : w.Fair)
    (hr : ∀ s, r.sequence = some s → s.toNat < w.size.toNat) : ¬ r.Jammed :=
  fun hjammed => hw.ne_last (hr _ hjammed.2) rfl

namespace Follows

/-- Each player before it that cannot be polled takes one round, unless one stands behind it. -/
theorem catchesUp (h : Follows responder requester r) (hcurrent : Current responder c p)
    (hσ : σ.Sound) (hr : ∀ s, r.sequence = some s → s.toNat < responder.window.size.toNat)
    (hfew : r.timeouts < requester.config.dropThreshold) {before after : List RemotePlayer}
    (hplayers : requester.players = before ++ r :: after) (hafter : ∀ q ∈ after, ¬ q.Jammed) :
    CatchesUp σ responder c p (RemotePlayer.jams before + responder.window.behind.toNat + 2)
      requester := by
  -- A fault leaves one fewer of them before the player; without any, everybody can be polled.
  induction hjams : RemotePlayer.jams before generalizing requester before with
  | zero =>
      rw [RemotePlayer.jams_eq_zero_iff] at hjams
      refine (Polls.catchesUp ⟨h, fun q hq => ?_⟩ hcurrent hσ hr hfew).mono (by omega)
      rw [hplayers, List.mem_append, List.mem_cons] at hq
      rcases hq with hq | rfl | hq
      · exact hjams q hq
      · exact not_jammed_of_lt hcurrent.fair hr
      · exact hafter q hq
  | succ jams ih =>
      have hjammed : ∃ q ∈ before, q.Jammed := by
        by_contra hnone
        have hzero := RemotePlayer.jams_eq_zero_iff.2 fun q hq hjam => hnone ⟨q, hq, hjam⟩
        omega
      obtain ⟨before', hleft, hless, hfollows, hfault⟩ := h.fault hcurrent.fair hplayers hjammed
      refine CatchesUp.mono (.of_round fun timestamp => ?_)
        (show jams + responder.window.behind.toNat + 2 + 1 ≤ _ by omega)
      rw [hfault]
      exact ⟨List.not_mem_nil, ih hfollows hfew hleft (by omega)⟩

/-- In this order of the table, the requester catches up exactly if it is up to date or nobody behind
the player keeps it from being polled. -/
theorem exists_catchesUp_iff (h : Follows responder requester r) (hcurrent : Current responder c p)
    (hσ : σ.Sound) (hr : ∀ s, r.sequence = some s → s.toNat < responder.window.size.toNat)
    (hfew : r.timeouts < requester.config.dropThreshold) {before after : List RemotePlayer}
    (hplayers : requester.players = before ++ r :: after) :
    (∃ n, CatchesUp σ responder c p n requester) ↔ r.IsAt c p ∨ ∀ q ∈ after, ¬ q.Jammed := by
  have hw : requester.window.Fair := h.window ▸ hcurrent.fair
  by_cases hafter : ∃ q ∈ after, q.Jammed
  · have hnot : ¬ ∀ q ∈ after, ¬ q.Jammed := fun hfree =>
      hafter.elim fun q hq => hfree q hq.1 hq.2
    rw [or_iff_left hnot]
    constructor
    · rintro ⟨n, hcatches⟩
      by_contra hat
      have hstalled : Stalled responder requester r :=
        ⟨h.consistent, hw, name_of_player? h.known, not_jammed_of_lt hcurrent.fair hr,
          Or.inr ⟨before, after, hplayers, hafter⟩⟩
      exact hstalled.not_catchesUp hat n hcatches
    · intro hat
      obtain ⟨q, hq, hjammed⟩ := hafter
      have hmem : q ∈ requester.players :=
        hplayers ▸ List.mem_append_right _ (List.mem_cons_of_mem _ hq)
      exact ⟨1, catchesUp_of_isAt hw ⟨q, hmem, hjammed⟩ h.known hat⟩
  · have hfree : ∀ q ∈ after, ¬ q.Jammed := fun q hq hjam => hafter ⟨q, hq, hjam⟩
    exact iff_of_true ⟨_, h.catchesUp hcurrent hσ hr hfew hplayers hfree⟩ (Or.inr hfree)

/-- The same requester with its table in another order. -/
theorem reorder (h : Follows responder requester r) {players : List RemotePlayer}
    (hplayers : players.Perm requester.players) :
    Follows responder { requester with players } r := by
  have hconsistent := h.consistent.reorder hplayers
  refine ⟨hconsistent, h.window, ?_, h.idle, h.tracked⟩
  exact (player?_eq_some_iff hconsistent.nodup).2
    ⟨hplayers.mem_iff.2 (mem_of_player? h.known), name_of_player? h.known⟩

/-- Whatever the order of the table, the requester catches up as fast as history serves numbers exactly
if it is up to date or everybody can be polled. -/
theorem forall_catchesUp_iff (h : Follows responder requester r) (hcurrent : Current responder c p)
    (hσ : σ.Sound) (hr : ∀ s, r.sequence = some s → s.toNat < responder.window.size.toNat)
    (hfew : r.timeouts < requester.config.dropThreshold) :
    (∀ players, players.Perm requester.players →
        CatchesUp σ responder c p (responder.window.behind.toNat + 2) { requester with players }) ↔
      r.IsAt c p ∨ ∀ q ∈ requester.players, ¬ q.Jammed := by
  have hmem := mem_of_player? h.known
  constructor
  · intro hall
    by_contra hnot
    rw [not_or, not_forall] at hnot
    obtain ⟨hat, q, hnot⟩ := hnot
    obtain ⟨hq, hjammed⟩ : q ∈ requester.players ∧ q.Jammed := by simpa using hnot
    -- With the player in front of all others, one that cannot be polled stands behind it.
    obtain ⟨before, after, hplayers⟩ := List.append_of_mem hmem
    have hperm : (r :: (before ++ after)).Perm requester.players :=
      hplayers ▸ List.perm_middle.symm
    have hbehind : q ∈ before ++ after := by
      rcases List.mem_cons.1 (hperm.mem_iff.2 hq) with rfl | hq
      · exact absurd hjammed (not_jammed_of_lt hcurrent.fair hr)
      · exact hq
    have hfirst : ({ requester with players := r :: (before ++ after) } : Peer).players =
        [] ++ r :: (before ++ after) := rfl
    have hcatches := ((h.reorder hperm).exists_catchesUp_iff hcurrent hσ hr hfew hfirst).1
      ⟨_, hall _ hperm⟩
    exact hcatches.elim hat fun hfree => hfree q hbehind hjammed
  · intro hgood players hperm
    have hfollows := h.reorder hperm
    by_cases hjammed : ∃ q ∈ players, q.Jammed
    · have hat : r.IsAt c p := hgood.resolve_right fun hfree =>
        hjammed.elim fun q hq => hfree q (hperm.mem_iff.1 hq.1) hq.2
      have hw : ({ requester with players } : Peer).window.Fair := hfollows.window ▸ hcurrent.fair
      exact (catchesUp_of_isAt hw hjammed hfollows.known hat).mono (by omega)
    · exact Polls.catchesUp ⟨hfollows, fun q hq hjam => hjammed ⟨q, hq, hjam⟩⟩ hcurrent hσ hr hfew

end Follows

/-- A peer that polls a player may be hindered by other players whose last number is the last word. It
depends on the order of the table: one of them before the player takes one round, one behind it
keeps a peer that is not up to date from ever catching up. So for every order of the table the peer
catches up, within as many rounds as history serves numbers and two more, exactly if it is up to date
or there is no such player. -/
theorem catchesUp_iff (hσ : σ.Sound) (hresponder : responder.Reachable σ)
    (hrequester : requester.Reachable σ) (hwindow : requester.window = responder.window)
    (hsize : requester.config.windowSize.toNat ≤ 2 ^ 31) (hc : responder.self.sequence = some c)
    (hknown : requester.player? responder.self.name = some r) (hidle : r.polled = false)
    (hsequence : ∀ s, r.sequence = some s → s.toNat < requester.config.windowSize.toNat)
    (hfew : r.timeouts < requester.config.dropThreshold)
    (htracked : ∀ s p, responder.self.history.get? s = some p →
      ∃ leaf, requester.geometry.leaf? p = some leaf ∧ requester.isTracked leaf = true) :
    ∃ p, responder.self.history.get? c = some p ∧
      ((∀ players, players.Perm requester.players →
          CatchesUp σ responder c p (requester.config.behindThreshold.toNat + 2)
            { requester with players }) ↔
        r.IsAt c p ∨ ∀ q ∈ requester.players, ¬ q.Jammed) ∧
      ∀ before after, (before ++ r :: after).Perm requester.players →
        ((∃ n, CatchesUp σ responder c p n { requester with players := before ++ r :: after }) ↔
          r.IsAt c p ∨ ∀ q ∈ after, ¬ q.Jammed) ∧
        ((∀ q ∈ after, ¬ q.Jammed) →
          CatchesUp σ responder c p
            (RemotePlayer.jams before + requester.config.behindThreshold.toNat + 2)
            { requester with players := before ++ r :: after }) := by
  have hw : requester.window.Fair := Config.fair_of_validate hrequester.made.1 hsize
  obtain ⟨hlt, p, hp⟩ := hresponder.published hc
  have hcurrent : Current responder c p := ⟨hwindow ▸ hw, hc, hp, hlt⟩
  have hfollows : Follows responder requester r :=
    ⟨hrequester.consistent, hwindow, hknown, hidle, htracked⟩
  have hr : ∀ s, r.sequence = some s → s.toNat < responder.window.size.toNat := by
    rw [← hwindow]
    exact hsequence
  have hbehind : requester.config.behindThreshold.toNat = responder.window.behind.toNat :=
    congrArg (·.behind.toNat) hwindow
  rw [hbehind]
  refine ⟨p, hp, hfollows.forall_catchesUp_iff hcurrent hσ hr hfew, fun before after hperm => ?_⟩
  have hordered := hfollows.reorder hperm
  exact ⟨hordered.exists_catchesUp_iff hcurrent hσ hr hfew rfl,
    hordered.catchesUp hcurrent hσ hr hfew rfl⟩

/-- A peer that has learned of two players in its leaf, and heard of one under the last word. -/
def misled (alice : Peer) (heard : Bool) : Peer :=
  alice.run .sealing ([.track ⟨[0, 0]⟩, .learn (sealed .root "/hub:bob /hub:carol 0/0\n")] ++
    if heard then [.hear ⟨"/hub", "carol"⟩ (sealed
      ((EntityName.mk "/hub" "carol").numbered 0xFFFFFFFF) "0,0,0")] else [])
where
  sealed (name : Name) (content : String) : Response :=
    ⟨name, Text.bytesOf content, 0, 0, Response.signable name (Text.bytesOf content) 0 0, []⟩

/-- The requester knows the responder's player, whose history is in leaves that the requester
tracks. -/
def knows (requester responder : Peer) (c : UInt32) : Bool :=
  requester.window == responder.window && decide (requester.config.windowSize.toNat ≤ 2 ^ 31) &&
    responder.self.sequence == some c &&
    (requester.player? responder.self.name).any (fun r => !r.polled && r.sequence == none &&
      decide (r.timeouts < requester.config.dropThreshold)) &&
    responder.self.history.records.toList.all fun record =>
      (requester.geometry.leaf? record.2.2).any requester.isTracked

theorem of_knows (h : knows requester responder c = true) :
    requester.window = responder.window ∧ requester.config.windowSize.toNat ≤ 2 ^ 31 ∧
      responder.self.sequence = some c ∧
      (∃ r, requester.player? responder.self.name = some r ∧ r.polled = false ∧
        r.sequence = none ∧ r.timeouts < requester.config.dropThreshold) ∧
      ∀ s p, responder.self.history.get? s = some p →
        ∃ leaf, requester.geometry.leaf? p = some leaf ∧ requester.isTracked leaf = true := by
  simp only [knows, Bool.and_eq_true, beq_iff_eq, decide_eq_true_eq, Option.any_eq_true,
    Bool.not_eq_true'] at h
  obtain ⟨⟨⟨⟨hwindow, hsize⟩, hc⟩, r, hr, ⟨hidle, hnone⟩, hfew⟩, hall⟩ := h
  refine ⟨hwindow, hsize, hc, ⟨r, hr, hidle, hnone, hfew⟩, ?_⟩
  intro s p hp
  unfold History.get? at hp
  split at hp
  · next t q hrecord =>
      split at hp
      · cases hp
        have hmem := Std.TreeMap.mem_toList_iff_getElem?_eq_some.2 hrecord
        exact (Option.any_eq_true _ _).1 (List.all_eq_true.1 hall _ hmem)
      · cases hp
  · cases hp

/-- A peer catches up with a player that has published twice. One that has also heard of another player
under the last word never does if that player stands behind in the table, and takes a round more if it
stands before. -/
theorem catchesUp_iff_bob : ∃ (responder requester misled : Peer) (r q : RemotePlayer) (p : Point),
    responder.Reachable .sealing ∧ requester.Reachable .sealing ∧ misled.Reachable .sealing ∧
      responder.self.sequence = some 1 ∧ responder.self.history.get? 1 = some p ∧
      CatchesUp .sealing responder 1 p (requester.config.behindThreshold.toNat + 2) requester ∧
      misled.players = [r, q] ∧ q.Jammed ∧
      (∀ n, ¬ CatchesUp .sealing responder 1 p n misled) ∧
      CatchesUp .sealing responder 1 p (1 + misled.config.behindThreshold.toNat + 2)
        { misled with players := [q, r] } := by
  let config : Config := { hub := "/hub", depth := 2, worldBits := 2 }
  have hmade : (made? config "alice" ⟨.zero, .zero, .zero⟩ []).any (fun alice =>
      (made? config "bob" ⟨.zero, .zero, .zero⟩ []).any fun bob =>
        let responder := bob.run .sealing [.publish, .publish]
        decide (knows (misled alice false) responder 1 = true ∧
          knows (misled alice true) responder 1 = true ∧
          (∀ q ∈ (misled alice false).players, ¬ q.Jammed) ∧
          (misled alice true).players.map (fun q => decide q.Jammed) = [false, true])) = true := by
    decide +kernel
  obtain ⟨alice, halice, hpair⟩ := exists_make hmade
  obtain ⟨bob, hbob, hall⟩ := exists_make hpair
  obtain ⟨hknows, hknows', hfree, hjams⟩ := of_decide_eq_true hall
  have hbob' : (bob.run .sealing [.publish, .publish]).Reachable .sealing :=
    ⟨_, _, _, _, _, _, hbob, rfl⟩
  have halice' : ∀ heard, (misled alice heard).Reachable .sealing :=
    fun heard => ⟨_, _, _, _, _, _, halice, rfl⟩
  have hrequester := halice' false
  have hmisled := halice' true
  generalize bob.run .sealing [.publish, .publish] = responder at *
  generalize misled alice false = requester at *
  generalize misled alice true = misled at *
  obtain ⟨hwindow, hsize, hc, ⟨r, hr, hidle, hsequence, hfew⟩, htracked⟩ := of_knows hknows
  obtain ⟨p, hp, hcatches, -⟩ := catchesUp_iff Scheme.sound_sealing hbob' hrequester hwindow
    hsize hc hr hidle (fun s hs => by rw [hsequence] at hs; cases hs) hfew htracked
  obtain ⟨hwindow', hsize', -, ⟨r', hr', hidle', hsequence', hfew'⟩, htracked'⟩ := of_knows hknows'
  obtain ⟨p', hp', -, horders⟩ := catchesUp_iff Scheme.sound_sealing hbob' hmisled hwindow'
    hsize' hc hr' hidle' (fun s hs => by rw [hsequence'] at hs; cases hs) hfew' htracked'
  obtain rfl := Option.some.inj (hp.symm.trans hp')
  obtain ⟨x, q, hplayers, hx, hq⟩ : ∃ x q, misled.players = [x, q] ∧ ¬ x.Jammed ∧ q.Jammed := by
    rcases hlist : misled.players with _ | ⟨x, _ | ⟨q, _ | _⟩⟩ <;>
      simp [hlist] at hjams ⊢
    exact hjams
  have hmem := mem_of_player? hr'
  have hne : r' ≠ q := by
    rintro rfl
    exact Option.some_ne_none _ (hq.2.symm.trans hsequence')
  obtain rfl : r' = x := by
    rw [hplayers, List.mem_cons, List.mem_singleton] at hmem
    exact hmem.resolve_right hne
  have hstays := (horders [] [q] (hplayers ▸ List.Perm.refl _)).1
  have hgoes := (horders [q] [] (hplayers ▸ List.Perm.swap ..)).2 fun _ hmem =>
    absurd hmem List.not_mem_nil
  refine ⟨responder, requester, misled, r', q, p, hbob', hrequester, hmisled, hc, hp, ?_, hplayers,
    hq, fun n hn => ?_, ?_⟩
  · exact hcatches.2 (Or.inr hfree) _ (List.Perm.refl _)
  · refine (hstays.1 ⟨n, ?_⟩).elim (fun hat => ?_) fun hnone => hnone q List.mem_cons_self hq
    · rw [List.nil_append, ← hplayers]
      exact hn
    · exact absurd (hat.1.symm.trans hsequence') (Option.some_ne_none _)
  · have hone : RemotePlayer.jams [q] = 1 := by simp [RemotePlayer.jams, hq]
    rw [hone] at hgoes
    exact hgoes

end RegionSync.Peer
