import RegionSync.Proofs.Peer.Answering

/-!
What a player serves is what it has published. Publications are numbered around the window, and each
takes the place of the one a lap before; so history serves exactly the numbers of the last lap, with
the positions that were published under them.
-/

namespace RegionSync

namespace Window

variable {w : Window}

/-- The number of a publication, counted from zero. -/
def number (w : Window) (i : Nat) : UInt32 :=
  .ofNat (i % w.size.toNat)

theorem Fair.toNat_number (h : w.Fair) (i : Nat) : (w.number i).toNat = i % w.size.toNat := by
  have hlt := h.mod_lt i
  have hhalf := h.le_half
  exact UInt32.toNat_ofNat_of_lt (by rw [UInt32.size]; omega)

theorem Fair.number_lt (h : w.Fair) (i : Nat) : (w.number i).toNat < w.size.toNat := by
  rw [h.toNat_number]
  exact h.mod_lt i

theorem Fair.next_number (h : w.Fair) (i : Nat) :
    w.next (w.number i) = .ok (w.number (i + 1)) := by
  have hhalf := h.le_half
  have hlt := h.number_lt i
  obtain ⟨t, ht, htN⟩ := h.next (a := w.number i) (by omega)
  rw [ht, Except.ok.injEq, ← UInt32.toNat_inj, htN, h.toNat_number, h.toNat_number, Nat.mod_add_mod]

/-- Two publications less than a lap apart have different numbers. -/
theorem Fair.number_ne (h : w.Fair) {i n : Nat} (hlt : i < n) (hlap : n < i + w.size.toNat) :
    w.number i ≠ w.number n := by
  intro heq
  rw [← UInt32.toNat_inj, h.toNat_number, h.toNat_number] at heq
  have hzero := Nat.sub_mod_eq_zero_of_mod_eq heq.symm
  rw [Nat.mod_eq_of_lt (by omega)] at hzero
  omega

theorem Fair.number_add_size (h : w.Fair) (i : Nat) :
    w.number (i + w.size.toNat) = w.number i := by
  rw [← UInt32.toNat_inj, h.toNat_number, h.toNat_number, Nat.add_mod_right]

/-- Counting back from the last of some publications, those of the last lap have the numbers that are
so many steps before the last number. -/
theorem Fair.number_eq_iff (h : w.Fair) {i n : Nat} (hle : i ≤ n)
    (hlap : n < i + w.size.toNat) {r : UInt32} (hr : r.toNat < w.size.toNat) :
    w.number i = r ↔ w.steps r (w.number n) = n - i := by
  have hsteps := steps_eq h.size_ne_zero r (w.number n)
  rw [h.toNat_number, Int.natCast_emod] at hsteps
  constructor
  · rintro rfl
    rw [h.toNat_number, Int.natCast_emod, ← Int.sub_emod, Int.emod_eq_of_lt (by omega) (by omega)]
      at hsteps
    omega
  · intro hback
    -- Of the two, going back `n - i` steps from the last number leads to the one or the other.
    have hmod : ((n : Int) - i) % w.size.toNat = (n - r.toNat) % w.size.toNat := by
      rw [Int.emod_sub_emod] at hsteps
      rw [← hsteps, hback, Int.emod_eq_of_lt (by omega) (by omega)]
      omega
    have hsame : (i : Int) % w.size.toNat = r.toNat % w.size.toNat :=
      calc (i : Int) % w.size.toNat
          = (n - (n - i) % w.size.toNat) % w.size.toNat := by
            rw [Int.sub_emod_emod, Int.sub_sub_self]
        _ = (n - (n - r.toNat) % w.size.toNat) % w.size.toNat := by rw [hmod]
        _ = r.toNat % w.size.toNat := by rw [Int.sub_emod_emod, Int.sub_sub_self]
    rw [← UInt32.toNat_inj, h.toNat_number]
    rw [← Int.natCast_emod, ← Int.natCast_emod, Int.natCast_inj, Nat.mod_eq_of_lt hr] at hsame
    exact hsame

end Window

namespace History

theorem get?_record_iff {h : History} {s t : UInt32} {p q : Point} :
    (h.record s p).get? t = some q ↔
      t = s ∧ q = p ∨ h.place s ≠ h.place t ∧ h.get? t = some q := by
  by_cases hplace : h.place s = h.place t
  · by_cases hsame : t = s
    · subst hsame
      rw [get?_record, Option.some.injEq]
      simp [eq_comm]
    · have hlost : (h.record s p).get? t = none := by
        simp only [place] at hplace
        simp [record, get?, place, hplace, Ne.symm hsame]
      rw [hlost]
      simp [hsame, hplace]
  · rw [get?_record_of_ne p hplace]
    have hne : t ≠ s := fun hsame => hplace (hsame ▸ rfl)
    simp [hne, hplace]

end History

/-- A number and a history that come of publishing these positions, the oldest first. -/
structure Published (w : Window) (positions : List Point) (sequence : Option UInt32)
    (history : History) : Prop where
  sequence_eq : sequence = positions.getLast?.map fun _ => w.number (positions.length - 1)
  capacity_eq : history.capacity = w.size.toNat
  get?_iff : ∀ s p, history.get? s = some p ↔
    ∃ i, positions[i]? = some p ∧ w.number i = s ∧ positions.length ≤ i + w.size.toNat

namespace Published

variable {w : Window} {positions : List Point} {sequence : Option UInt32} {history : History}

theorem empty (h : w.Fair) : Published w [] none (.empty w.size) where
  sequence_eq := rfl
  capacity_eq := by
    have hfour := h.four_le
    exact Nat.max_eq_left (by omega)
  get?_iff s p := by simp [History.empty, History.get?]

theorem place_number (h : w.Fair) (hp : Published w positions sequence history) (i : Nat) :
    history.place (w.number i) = (w.number i).toNat := by
  rw [History.place, hp.capacity_eq, Nat.mod_eq_of_lt (h.number_lt i)]

theorem push (h : w.Fair) (hp : Published w positions sequence history) (p : Point) :
    Published w (positions ++ [p]) (some (w.number positions.length))
      (history.record (w.number positions.length) p) where
  sequence_eq := by simp
  capacity_eq := hp.capacity_eq
  get?_iff s q := by
    rw [History.get?_record_iff, List.length_append, List.length_singleton]
    constructor
    · rintro (⟨rfl, rfl⟩ | ⟨hplace, hfound⟩)
      · have hfour := h.four_le
        exact ⟨positions.length, by simp, rfl, by omega⟩
      · obtain ⟨i, hi, rfl, hlap⟩ := (hp.get?_iff s q).1 hfound
        have hlt := (List.getElem?_eq_some_iff.1 hi).1
        refine ⟨i, by rw [List.getElem?_append_left hlt, hi], rfl, ?_⟩
        -- What is a lap old is just what lost its place.
        have hold : i + w.size.toNat ≠ positions.length := by
          intro heq
          rw [← heq, h.number_add_size] at hplace
          exact hplace rfl
        omega
    · rintro ⟨i, hi, rfl, hlap⟩
      rcases Nat.lt_or_ge i positions.length with hlt | hge
      · rw [List.getElem?_append_left hlt] at hi
        refine Or.inr ⟨?_, (hp.get?_iff _ q).2 ⟨i, hi, rfl, by omega⟩⟩
        rw [hp.place_number h, hp.place_number h]
        intro heq
        exact h.number_ne hlt (by omega) (UInt32.toNat_inj.1 heq.symm)
      · have hlen := (List.getElem?_eq_some_iff.1 hi).1
        rw [List.length_append, List.length_singleton] at hlen
        obtain rfl : i = positions.length := by omega
        rw [List.getElem?_concat_length, Option.some.injEq] at hi
        exact Or.inl ⟨rfl, hi.symm⟩

end Published

/-- What a player says to a poll when these are the positions it has published, the oldest first. -/
def Reply.ofPublished (w : Window) (positions : List Point) (requested : Option UInt32) : Reply :=
  let current := w.number (positions.length - 1)
  match positions.getLast?, requested with
  | none, _ => .silent
  | some p, none => .answer current (.position p)
  | some _, some r =>
    let forward := (((r.toNat : Int) - current.toNat) % w.size.toNat).toNat
    let back := (((current.toNat : Int) - r.toNat) % w.size.toNat).toNat
    if 1 ≤ forward ∧ forward ≤ w.ahead.toNat then .wait
    else if w.behind.toNat < back then .answer r (.reset current "behind")
    else
      let served := if r.toNat < w.size.toNat then positions.reverse[back]? else none
      .answer r (served.elim (.reset current "missing") .position)

namespace Published

variable {w : Window} {positions : List Point} {sequence : Option UInt32} {history : History}

/-- What is still found under a number is what was published so many steps before the last. -/
theorem get?_eq (h : w.Fair) (hp : Published w positions sequence history) (r : UInt32)
    (hnonempty : 0 < positions.length) :
    history.get? r =
      if r.toNat < w.size.toNat then
        positions.reverse[w.steps r (w.number (positions.length - 1))]?
      else none := by
  apply Option.ext
  intro p
  rw [hp.get?_iff]
  constructor
  · rintro ⟨i, hi, rfl, hlap⟩
    have hlt := (List.getElem?_eq_some_iff.1 hi).1
    have hback := (h.number_eq_iff (i := i) (n := positions.length - 1) (by omega) (by omega)
      (h.number_lt i)).1 rfl
    rw [if_pos (h.number_lt i), hback, List.getElem?_reverse (by omega), ← hi]
    congr 1
    omega
  · intro hfound
    split at hfound
    · next hr =>
        have hlt := (List.getElem?_eq_some_iff.1 hfound).1
        rw [List.length_reverse] at hlt
        rw [List.getElem?_reverse hlt] at hfound
        have hsteps := h.mod_lt (((w.number (positions.length - 1)).toNat % w.size.toNat +
          w.size.toNat - r.toNat % w.size.toNat))
        refine ⟨_, hfound, (h.number_eq_iff (n := positions.length - 1) ?_ ?_ hr).2 ?_, ?_⟩
        all_goals
          unfold Window.steps at hlt ⊢
          omega
    · cases hfound

theorem reply_eq (h : w.Fair) (hp : Published w positions sequence history)
    (requested : Option UInt32) :
    Reply.to w sequence history requested = .ok (.ofPublished w positions requested) := by
  rw [hp.sequence_eq]
  cases hlast : positions.getLast? with
  | none => simp [Reply.to, Reply.ofPublished, hlast]
  | some p =>
      have hnonempty : 0 < positions.length := by
        apply List.length_pos_of_ne_nil
        rintro rfl
        cases hlast
      have hfound := fun s => hp.get?_eq h s hnonempty
      cases requested with
      | none =>
          have hcurrent := hfound (w.number (positions.length - 1))
          rw [if_pos (h.number_lt _), Window.steps_self (h.number_lt _), List.getElem?_reverse hnonempty,
            Nat.sub_zero, ← List.getLast?_eq_getElem?, hlast] at hcurrent
          simp only [Reply.to, Reply.ofPublished, hlast, Option.map_some, hcurrent]
      | some r =>
          have hforward := Window.steps_eq h.size_ne_zero (w.number (positions.length - 1)) r
          have hback := Window.steps_eq h.size_ne_zero r (w.number (positions.length - 1))
          rw [Option.map_some, Reply.to_some h]
          simp only [Reply.ofPublished, hlast, ← hforward, ← hback, Int.toNat_natCast, ← hfound]
          cases history.get? r <;> rfl

end Published

namespace Peer

variable {σ : Scheme}

/-- The positions that the player has at the publications of a run, the oldest first. -/
def publications (σ : Scheme) (peer : Peer) : List Operation → List Point
  | [] => []
  | operation :: operations =>
    let later := (peer.step σ operation).1.publications σ operations
    match operation with
    | .publish => peer.self.position :: later
    | _ => later

theorem publications_cons_of_ne (peer : Peer) {operation : Operation} (h : operation ≠ .publish)
    (operations : List Operation) : peer.publications σ (operation :: operations) =
      (peer.step σ operation).1.publications σ operations := by
  cases operation with
  | publish => exact absurd rfl h
  | _ => rfl

theorem nextSequence_of_published {peer : Peer} {positions : List Point} (h : peer.window.Fair)
    (hp : Published peer.window positions peer.self.sequence peer.self.history) :
    peer.nextSequence = .ok (peer.window.number positions.length) := by
  rw [nextSequence, hp.sequence_eq]
  cases positions with
  | nil => simp [Window.number]
  | cons p positions =>
      rw [List.getLast?_cons, Option.map_some]
      dsimp only
      rw [h.next_number, List.length_cons, Nat.add_sub_cancel]

/-- A run adds what it publishes to what was published before. -/
theorem published_run {peer : Peer} {positions : List Point} (h : peer.window.Fair)
    (hp : Published peer.window positions peer.self.sequence peer.self.history)
    (operations : List Operation) :
    Published peer.window (positions ++ peer.publications σ operations)
      (peer.run σ operations).self.sequence (peer.run σ operations).self.history := by
  induction operations generalizing peer positions with
  | nil =>
      rw [publications, List.append_nil]
      exact hp
  | cons operation operations ih =>
      have hwindow : (peer.step σ operation).1.window = peer.window :=
        congrArg (fun identity => identity.config.window) (identity_step peer operation)
      rw [run_cons, ← hwindow]
      by_cases hpublish : operation = .publish
      · subst hpublish
        rw [publications, List.append_cons]
        apply ih (hwindow ▸ h)
        obtain ⟨hsequence, hhistory⟩ := self_publish (nextSequence_of_published h hp)
        rw [hwindow, step, hsequence, hhistory]
        exact hp.push h peer.self.position
      · rw [publications_cons_of_ne peer hpublish]
        apply ih (hwindow ▸ h)
        obtain ⟨hsequence, hhistory⟩ := unpublished_step (σ := σ) peer hpublish
        rw [hwindow, hsequence, hhistory]
        exact hp

/-- A player serves the positions it has published, each under its number for a lap of the window at
most, and has nothing to say before the first one. -/
theorem replyTo_run {config : Config} {id : String} {position : Point} {secret : Bytes} {start : Peer}
    (hmake : make config id position secret = .ok (.ok start))
    (hsize : config.windowSize.toNat ≤ 2 ^ 31) (operations : List Operation)
    (requested : Option UInt32) : (start.run σ operations).replyTo requested =
      .ok (.ofPublished config.window (start.publications σ operations) requested) := by
  obtain ⟨hvalid, -, -, -, -, -, hstart⟩ := make_eq_ok hmake
  have hconfig : start.config = config := by rw [hstart]
  have hfair : start.window.Fair := by
    rw [window, hconfig]
    exact Config.fair_of_validate hvalid hsize
  have hnew : Published start.window [] start.self.sequence start.self.history := by
    rw [hstart]
    exact Published.empty (hconfig ▸ hfair)
  have hrun := published_run (σ := σ) hfair hnew operations
  rw [List.nil_append] at hrun
  have hwindow : (start.run σ operations).window = config.window := by
    rw [← hconfig]
    exact congrArg (fun identity => identity.config.window) (identity_run start operations)
  rw [replyTo, hwindow, ← hconfig]
  exact hrun.reply_eq hfair requested

/-- Six publications at three places and an attempt to leave the world, around a window of five. -/
theorem replyTo_run_second_lap : ∃ config id position secret start, ∃ place : Nat → Point,
    make config id position secret = .ok (.ok start) ∧ config.windowSize.toNat ≤ 2 ^ 31 ∧
      let bob := start.run .sealing [.publish, .moveTo (place 1), .publish, .moveTo (place 9),
        .publish, .publish, .moveTo (place 2), .publish, .publish]
      [none, some 0, some 1, some 2, some 3, some 4, some 9].map bob.replyTo =
        [.answer 0 (.position (place 2)), .answer 0 (.position (place 2)), .wait,
          .answer 2 (.reset 0 "behind"), .answer 3 (.position (place 1)),
          .answer 4 (.position (place 2)), .answer 9 (.reset 0 "missing")].map .ok := by
  let config : Config :=
    { hub := "/hub", depth := 2, worldBits := 2, windowSize := 5, aheadThreshold := 1,
      behindThreshold := 2 }
  let place (n : Nat) : Point := ⟨.ofNat n, .zero, .zero⟩
  have hmade : (made? config "bob" (place 0) []).any (fun start => decide
      (start.publications .sealing [.publish, .moveTo (place 1), .publish, .moveTo (place 9),
          .publish, .publish, .moveTo (place 2), .publish, .publish] =
        [place 0, place 1, place 1, place 1, place 2, place 2])) = true := by
    decide +kernel
  obtain ⟨start, hstart, hplaces⟩ := exists_make hmade
  refine ⟨config, "bob", place 0, [], start, place, hstart, by decide, ?_⟩
  simp only [List.map_cons, List.map_nil, replyTo_run hstart (by decide), of_decide_eq_true hplaces]
  decide +kernel

end Peer

end RegionSync
