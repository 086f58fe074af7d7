import RegionSync.Proofs.Peer.Answering

/-!
Polls of a peer and what becomes of them. Either every player without a poll out is polled, or the
number after some player's is not a word: then no poll is sent at all, although the players up to that
one count as polled from then on. An answer or a missing one changes the entry of its player, and of
nobody else.
-/

namespace RegionSync

/-- The entry once an answer was heard that is of no use. -/
def RemotePlayer.heard (r : RemotePlayer) : RemotePlayer :=
  { r with polled := false }

/-- The entry once a reset was heard that leads to this number. -/
def RemotePlayer.resetTo (r : RemotePlayer) (s : UInt32) : RemotePlayer :=
  { r with polled := false, sequence := some s, timeouts := 0 }

/-- The entry once a position in this leaf was accepted. -/
def RemotePlayer.accepted (r : RemotePlayer) (s : UInt32) (p : Point) (leaf : RegionPath) :
    RemotePlayer :=
  { r with
    polled := false
    location := .known p
    sequence := some s
    history := r.history.record s p
    timeouts := 0
    region := some leaf }

/-- The entry while a poll is out. -/
def RemotePlayer.awaited (r : RemotePlayer) : RemotePlayer :=
  { r with polled := true }

theorem RemotePlayer.awaited_eq {r : RemotePlayer} (h : r.polled = true) : r.awaited = r := by
  rw [awaited, ← h]

/-- A player that cannot be polled: the number after its last one is not a word. -/
def RemotePlayer.Jammed (r : RemotePlayer) : Prop :=
  r.polled = false ∧ r.sequence = some 0xFFFFFFFF

instance (r : RemotePlayer) : Decidable r.Jammed :=
  inferInstanceAs (Decidable (_ ∧ _))

theorem RemotePlayer.not_jammed_awaited (r : RemotePlayer) : ¬ r.awaited.Jammed :=
  fun h => Bool.noConfusion h.1

theorem RemotePlayer.not_jammed_of_polled {r : RemotePlayer} (h : r.polled = true) : ¬ r.Jammed :=
  awaited_eq h ▸ r.not_jammed_awaited

namespace Peer

variable {σ : Scheme} {peer : Peer} {r q : RemotePlayer} {w : Window} {e name : EntityName}
  {players : List RemotePlayer} {lifetime : Nat} {leaf : RegionPath} {s : UInt32} {p : Point}

/-! Who is polled. -/

theorem toNat_last {a : UInt32} : a.toNat + 1 = 2 ^ 32 ↔ a = 0xFFFFFFFF := by
  rw [← UInt32.toNat_inj]
  change a.toNat + 1 = 2 ^ 32 ↔ a.toNat = 2 ^ 32 - 1
  omega

theorem pollName_last (h : r.sequence = some 0xFFFFFFFF) : pollName w r = .error .overflow := by
  rw [pollName, h]
  dsimp only
  rw [Window.next_last (toNat_last.2 rfl)]
  rfl

/-- The poll of a player that can be polled asks for what follows its last number. -/
theorem exists_pollName (hw : w.Fair) (h : r.sequence ≠ some 0xFFFFFFFF) :
    ∃ name, pollName w r = .ok name := by
  cases hsequence : r.sequence with
  | none => exact ⟨_, by rw [pollName, hsequence]⟩
  | some s =>
      have hs : s.toNat + 1 < 2 ^ 32 := by
        have hlt := s.toNat_lt
        have hne : ¬ s.toNat + 1 = 2 ^ 32 := fun hlast => by
          rw [toNat_last] at hlast
          rw [hsequence, hlast] at h
          exact h rfl
        omega
      obtain ⟨t, ht, -⟩ := hw.next hs
      refine ⟨r.name.numbered t, ?_⟩
      rw [pollName, hsequence]
      dsimp only
      rw [ht]
      rfl

theorem exists_first_jammed (h : ∃ r ∈ players, r.Jammed) :
    ∃ before q after, players = before ++ q :: after ∧ (∀ r ∈ before, ¬ r.Jammed) ∧ q.Jammed := by
  obtain ⟨r, hr, hjammed⟩ := h
  have hfound : (players.find? fun r => decide r.Jammed).isSome = true :=
    List.find?_isSome.2 ⟨r, hr, decide_eq_true hjammed⟩
  obtain ⟨q, hq⟩ := Option.isSome_iff_exists.1 hfound
  obtain ⟨hq, before, after, hplayers, hbefore⟩ := List.find?_eq_some_iff_append.1 hq
  exact ⟨before, q, after, hplayers, fun r hr => by simpa using hbefore r hr, of_decide_eq_true hq⟩

/-- The first player that cannot be polled ends the polling: nobody is sent a poll, and yet everybody up
to that player counts as polled. -/
theorem pollAll_of_first_jammed (hw : w.Fair) (lifetime : Nat) {before : List RemotePlayer}
    (after : List RemotePlayer) (hbefore : ∀ r ∈ before, ¬ r.Jammed) (hq : q.Jammed) :
    pollAll w lifetime (before ++ q :: after) =
      (before.map RemotePlayer.awaited ++ q.awaited :: after, .error .overflow) := by
  induction before with
  | nil =>
      rw [List.nil_append, pollAll, if_neg (by rw [hq.1]; decide)]
      dsimp only
      rw [pollName_last hq.2]
      rfl
  | cons r before ih =>
      have hrest := ih fun x hx => hbefore x (List.mem_cons_of_mem _ hx)
      rw [List.cons_append, pollAll, hrest]
      by_cases hpolled : r.polled = true
      · rw [if_pos hpolled, List.map_cons, RemotePlayer.awaited_eq hpolled]
        rfl
      · have hlast : r.sequence ≠ some 0xFFFFFFFF := fun hlast =>
          hbefore r List.mem_cons_self ⟨by simpa using hpolled, hlast⟩
        obtain ⟨name, hname⟩ := exists_pollName hw hlast
        rw [if_neg hpolled, hname]
        rfl

/-- One player that cannot be polled keeps all others from being polled. -/
theorem pollAll_of_jammed (hw : w.Fair) (h : ∃ r ∈ players, r.Jammed) :
    (pollAll w lifetime players).2 = .error .overflow := by
  obtain ⟨before, q, after, rfl, hbefore, hq⟩ := exists_first_jammed h
  rw [pollAll_of_first_jammed hw lifetime after hbefore hq]

theorem pollAll_of_not_jammed (hw : w.Fair) (lifetime : Nat) (h : ∀ r ∈ players, ¬ r.Jammed) :
    (pollAll w lifetime players).1 = players.map RemotePlayer.awaited ∧
      ∃ polls, (pollAll w lifetime players).2 = .ok polls ∧ ∀ poll, poll ∈ polls ↔
        ∃ r ∈ players, r.polled = false ∧ ∃ name, pollName w r = .ok name ∧
          poll = (r.name, ⟨name, lifetime, true⟩) := by
  induction players with
  | nil => exact ⟨rfl, [], rfl, by simp⟩
  | cons q players ih =>
      obtain ⟨hplayers, polls, hpolls, hmem⟩ := ih fun r hr => h r (List.mem_cons_of_mem _ hr)
      simp only [pollAll]
      by_cases hpolled : q.polled = true
      · rw [if_pos hpolled]
        refine ⟨?_, polls, hpolls, fun poll => ?_⟩
        · rw [List.map_cons, hplayers, RemotePlayer.awaited_eq hpolled]
        · rw [hmem]
          simp [hpolled]
      · rw [if_neg hpolled]
        have hlast : q.sequence ≠ some 0xFFFFFFFF := fun hlast =>
          h q List.mem_cons_self ⟨by simpa using hpolled, hlast⟩
        obtain ⟨name, hname⟩ := exists_pollName hw hlast
        rw [hname]
        dsimp only
        refine ⟨by rw [List.map_cons, hplayers]; rfl, (q.name, ⟨name, lifetime, true⟩) :: polls, ?_,
          fun poll => ?_⟩
        · rw [hpolls]
          rfl
        · rw [List.mem_cons, hmem]
          simp [hpolled, hname]

/-! What stays as it was. -/

theorem isTracked_hear (peer : Peer) (name : EntityName) (response : Response) (q : RegionPath) :
    (peer.hear σ name response).peer.isTracked q = peer.isTracked q :=
  (keeps_hear peer name response).isTracked q

theorem isTracked_miss (peer : Peer) (name : EntityName) (q : RegionPath) :
    (peer.miss name).peer.isTracked q = peer.isTracked q :=
  (keeps_miss peer name).isTracked q

/-- An answer changes no entry but that of its player. -/
theorem mem_of_mem_hear {response : Response} (h : q ∈ (peer.hear σ name response).peer.players)
    (hne : q.name ≠ name) : q ∈ peer.players := by
  unfold hear at h
  dsimp only at h
  split at h
  · exact h
  · next r hfound =>
      have hname := name_of_player? hfound
      have hother : q ∈ (peer.setPlayer { r with polled := false }).players → q ∈ peer.players := by
        intro hq
        rcases mem_setPlayer hq with heq | ⟨hq, -⟩
        · rw [heq] at hne
          exact absurd hname hne
        · exact hq
      split at h
      · exact hother h
      · rcases of_mem_apply h with hq | hchange
        · exact hother hq
        · exact absurd (hchange.name_eq.trans hname) hne

theorem mem_of_mem_miss (h : q ∈ (peer.miss name).peer.players) (hne : q.name ≠ name) :
    q ∈ peer.players := by
  unfold miss at h
  split at h
  · exact h
  · next r hfound =>
      have hname := name_of_player? hfound
      have hother : ∀ r' : RemotePlayer, q ∈ (peer.setPlayer r').players → r'.name = r.name →
          q ∈ peer.players := by
        intro r' hq hsame
        rcases mem_setPlayer hq with heq | ⟨hq, -⟩
        · rw [heq, hsame] at hne
          exact absurd hname hne
        · exact hq
      dsimp only at h
      split at h
      · exact hother _ h rfl
      · split at h
        · exact hother _ h rfl
        · exact (List.mem_filter.1 h).1

/-! What an accepted position changes. -/

/-- In its leaf, a player's entry is all that changes. -/
theorem accept_home (peer : Peer) (s : UInt32) (p : Point) (h : r.region = some leaf) :
    (peer.setPlayer r.heard).accept r.heard s p leaf =
      (peer.setPlayer (r.accepted s p leaf), [.located r.name (.known p)]) := by
  have hsame : r.heard.region = some leaf := h
  unfold accept
  dsimp only
  rw [if_pos hsame, RemotePlayer.accepted, ← h]
  exact Prod.ext (setPlayer_setPlayer peer rfl) rfl

/-- In another tracked leaf, the octree changes as well. -/
theorem accept_moved (hleaf : peer.octree.isLeaf leaf = true) {old : RegionPath}
    (hold : r.region = some old) (hne : old ≠ leaf) (htracked : peer.isTracked leaf = true)
    (s : UInt32) (p : Point) :
    ∃ octree, (peer.octree.removeName old r.name).addName leaf r.name = .ok octree ∧
      (peer.setPlayer r.heard).accept r.heard s p leaf =
        (({ peer with octree } : Peer).setPlayer (r.accepted s p leaf),
          [.located r.name (.known p)]) := by
  obtain ⟨octree, hadd, hmove⟩ := moveName_of_isTracked r.name old htracked hleaf
  have hmove' : moveName (peer.setPlayer r.heard).octree r.heard.name (some old) leaf =
      (octree, true) := hmove
  have hold' : r.heard.region = some old := hold
  refine ⟨octree, hadd, ?_⟩
  unfold accept
  dsimp only
  rw [hold', if_neg fun heq => hne (Option.some.inj heq), hmove']
  exact Prod.ext (setPlayer_setPlayer ({ peer with octree } : Peer) rfl) rfl

/-- Outside the tracked leaves, the entry is gone. -/
theorem accept_evicted {old : RegionPath} (hold : r.region = some old) (hne : old ≠ leaf)
    (htracked : ¬ peer.isTracked leaf = true) (s : UInt32) (p : Point) :
    (peer.setPlayer r.heard).accept r.heard s p leaf =
      ({ peer.forget r.name with octree := peer.octree.removeName old r.name },
        [.log .info s!"{r.name} left tracked space for {leaf}", .located r.name (.known p)]) := by
  have hold' : r.heard.region = some old := hold
  have hmove : moveName (peer.setPlayer r.heard).octree r.heard.name (some old) leaf =
      (peer.octree.removeName old r.name, false) := moveName_of_not_isTracked htracked
  unfold accept
  dsimp only
  rw [hold', if_neg fun heq => hne (Option.some.inj heq), hmove]
  refine Prod.ext ?_ rfl
  exact congrArg (fun forgotten : Peer =>
    { forgotten with octree := peer.octree.removeName old r.name }) (forget_setPlayer peer r.heard)

/-! What becomes of the entry. -/

theorem player?_setPlayer (r' : RemotePlayer) (h : (peer.player? r'.name).isSome = true) :
    (peer.setPlayer r').player? r'.name = some r' := by
  have hone : ∀ q : RemotePlayer, (if q.name = r'.name then r' else q).name = q.name := by
    intro q
    split
    · next heq => exact heq.symm
    · rfl
  have hname : ((fun q : RemotePlayer => q.name == r'.name) ∘
      fun q => if q.name = r'.name then r' else q) = fun q => q.name == r'.name := by
    funext q
    exact congrArg (· == r'.name) (hone q)
  obtain ⟨q, hq⟩ := Option.isSome_iff_exists.1 h
  rw [player?] at hq
  rw [player?, setPlayer, List.find?_map, hname, hq, Option.map_some, if_pos (name_of_player? hq)]

/-- The changed entry of a player of the table is the one found. -/
theorem player?_setPlayer_eq (h : peer.player? e = some r) (q : RemotePlayer)
    (hname : q.name = r.name) : (peer.setPlayer q).player? e = some q := by
  obtain rfl := name_of_player? h
  rw [← hname] at h ⊢
  exact player?_setPlayer q (Option.isSome_iff_exists.2 ⟨r, h⟩)

theorem hear_eq {response : Response} {payload : Payload} (h : peer.player? e = some r)
    (hread : readAnswer σ e response = (some (s, payload), [])) :
    peer.hear σ e response = (peer.setPlayer r.heard).apply r.heard s payload := by
  rw [hear, hread]
  dsimp only
  rw [h]
  rfl

/-- A reset moves the last number right before the one to go on from. -/
theorem hear_reset_eq {response : Response} {goal : UInt32} {reason : String}
    (h : peer.player? e = some r)
    (hread : readAnswer σ e response = (some (s, .reset goal reason), [])) {t : UInt32}
    (hprev : peer.window.prev goal = .ok t) :
    peer.hear σ e response = (peer.setPlayer (r.resetTo t)).quietly (.ok ()) := by
  have hprev' : (peer.setPlayer r.heard).window.prev goal = .ok t := hprev
  have hafter : (peer.setPlayer r.heard).setPlayer (r.resetTo t) = peer.setPlayer (r.resetTo t) :=
    setPlayer_setPlayer peer rfl
  rw [hear_eq h hread, apply, hprev', ← hafter]
  rfl

theorem hear_reset {response : Response} {goal : UInt32} {reason : String}
    (h : peer.player? e = some r)
    (hread : readAnswer σ e response = (some (s, .reset goal reason), [])) {t : UInt32}
    (hprev : peer.window.prev goal = .ok t) :
    (peer.hear σ e response).value = .ok () ∧ (peer.hear σ e response).events = [] ∧
      (peer.hear σ e response).peer.player? e =
        some { r with polled := false, sequence := some t, timeouts := 0 } := by
  rw [hear_reset_eq h hread hprev]
  exact ⟨rfl, rfl, player?_setPlayer_eq h (r.resetTo t) rfl⟩

/-- A newer position in the world is accepted. -/
theorem hear_position_eq {response : Response} (h : peer.player? e = some r)
    (hread : readAnswer σ e response = (some (s, .position p), []))
    (hnewer : peer.window.isNewer r.sequence s = .ok true)
    (hleaf : peer.geometry.leaf? p = some leaf) :
    let accepted := (peer.setPlayer r.heard).accept r.heard s p leaf
    peer.hear σ e response = ⟨.ok (), accepted.1, accepted.2⟩ := by
  have hnewer' : (peer.setPlayer r.heard).window.isNewer r.heard.sequence s = .ok true := hnewer
  have hleaf' : (peer.setPlayer r.heard).geometry.leaf? p = some leaf := hleaf
  intro accepted
  simp only [hear_eq h hread, apply, hnewer', hleaf', accepted]

/-- A newer position in a tracked leaf is noted. -/
theorem hear_position {response : Response} (hpeer : peer.Consistent)
    (h : peer.player? e = some r) (hread : readAnswer σ e response = (some (s, .position p), []))
    (hnewer : peer.window.isNewer r.sequence s = .ok true) (hleaf : peer.geometry.leaf? p = some leaf)
    (htracked : peer.isTracked leaf = true) :
    (peer.hear σ e response).value = .ok () ∧
      (peer.hear σ e response).events = [.located e (.known p)] ∧
      (peer.hear σ e response).peer.player? e = some { r with
        polled := false
        location := .known p
        sequence := some s
        history := r.history.record s p
        timeouts := 0
        region := some leaf } := by
  rw [hear_position_eq h hread hnewer hleaf]
  have hentry : ∀ octree, (({ peer with octree } : Peer).setPlayer (r.accepted s p leaf)).player?
      e = some (r.accepted s p leaf) := fun octree =>
    player?_setPlayer_eq h (r.accepted s p leaf) rfl
  obtain rfl := name_of_player? h
  obtain ⟨old, hold, -, -⟩ := hpeer.housed r (mem_of_player? h)
  by_cases hne : old = leaf
  · rw [accept_home peer s p (hne ▸ hold)]
    exact ⟨rfl, rfl, hentry peer.octree⟩
  · obtain ⟨octree, -, haccept⟩ :=
      accept_moved (hpeer.isLeaf_of_leaf? hleaf) hold hne htracked s p
    rw [haccept]
    exact ⟨rfl, rfl, hentry octree⟩

/-- A missed poll that does not drop the player makes it start over. -/
theorem miss_kept (h : peer.player? e = some r) {timeouts : UInt32}
    (hcount : Word.add r.timeouts 1 = .ok timeouts) (hfew : timeouts ≤ peer.config.dropThreshold) :
    (peer.miss e).value = .ok () ∧ (peer.miss e).events = [] ∧ (peer.miss e).peer.player? e =
      some { r with polled := false, timeouts, sequence := none } := by
  unfold miss
  rw [h]
  dsimp only
  rw [hcount]
  dsimp only
  rw [if_pos hfew]
  exact ⟨rfl, rfl,
    player?_setPlayer_eq h { r with polled := false, timeouts, sequence := none } rfl⟩

end Peer

end RegionSync
