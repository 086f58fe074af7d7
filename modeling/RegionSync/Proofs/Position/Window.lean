import RegionSync.Config

/-!
The circle of sequence numbers in whole numbers. A number fits if the sum of it and the size is still
a word; distances to numbers that fit are remainders, and to others they overflow. A window whose size
is at most half of all words fits all numbers. Between numbers of the window distances are
differences, or differences around the end.
-/

namespace RegionSync

namespace Word

variable {a b : UInt32}

theorem exists_add (h : a.toNat + b.toNat < 2 ^ 32) :
    ∃ c, add a b = .ok c ∧ c.toNat = a.toNat + b.toNat := by
  refine ⟨a + b, if_pos h, ?_⟩
  rw [UInt32.toNat_add, Nat.mod_eq_of_lt h]

theorem exists_sub (h : b.toNat ≤ a.toNat) :
    ∃ c, sub a b = .ok c ∧ c.toNat = a.toNat - b.toNat :=
  ⟨a - b, if_pos h, UInt32.toNat_sub_of_le a b (UInt32.le_iff_toNat_le.2 h)⟩

theorem exists_rem (h : b ≠ 0) (a : UInt32) :
    ∃ c, rem a b = .ok c ∧ c.toNat = a.toNat % b.toNat :=
  ⟨a % b, rem_of_ne_zero h, UInt32.toNat_mod a b⟩

end Word

namespace Window

variable {w : Window} {a b c s t : UInt32}

/-- A window as a checked configuration gives it, small enough for words. -/
structure Fair (w : Window) : Prop where
  four_le : 4 ≤ w.size.toNat
  le_half : w.size.toNat ≤ 2 ^ 31
  ahead_pos : 1 ≤ w.ahead.toNat
  room : w.ahead.toNat + w.behind.toNat < w.size.toNat

/-- The steps forward from one number to another. -/
def steps (w : Window) (a b : UInt32) : Nat :=
  (b.toNat % w.size.toNat + w.size.toNat - a.toNat % w.size.toNat) % w.size.toNat

theorem steps_of_le (ha : a.toNat < w.size.toNat) (hb : b.toNat < w.size.toNat) (h : a.toNat ≤ b.toNat) :
    w.steps a b = b.toNat - a.toNat := by
  rw [steps, Nat.mod_eq_of_lt ha, Nat.mod_eq_of_lt hb,
    show b.toNat + w.size.toNat - a.toNat = b.toNat - a.toNat + w.size.toNat by omega,
    Nat.add_mod_right, Nat.mod_eq_of_lt (by omega)]

theorem steps_of_lt (ha : a.toNat < w.size.toNat) (hb : b.toNat < w.size.toNat) (h : b.toNat < a.toNat) :
    w.steps a b = b.toNat + w.size.toNat - a.toNat := by
  rw [steps, Nat.mod_eq_of_lt ha, Nat.mod_eq_of_lt hb, Nat.mod_eq_of_lt (by omega)]

/-- The sum that the arithmetic forms of a number and the size is a word. -/
def Fits (w : Window) (s : UInt32) : Prop :=
  s.toNat % w.size.toNat + w.size.toNat < 2 ^ 32

instance (w : Window) (s : UInt32) : Decidable (w.Fits s) :=
  inferInstanceAs (Decidable (_ < _))

theorem size_pos (hsize : w.size ≠ 0) : 0 < w.size.toNat :=
  Nat.pos_of_ne_zero fun hzero => hsize (UInt32.toNat_inj.1 hzero)

theorem size_ne_zero_of_lt (hs : s.toNat < w.size.toNat) : w.size ≠ 0 := by
  intro hzero
  rw [hzero] at hs
  exact absurd hs (Nat.not_lt_zero _)

theorem mod_size_lt (hsize : w.size ≠ 0) (r : UInt32) : (r % w.size).toNat < w.size.toNat := by
  rw [UInt32.toNat_mod]
  exact Nat.mod_lt _ (size_pos hsize)

theorem fits_of_half (hsize : w.size ≠ 0) (hhalf : w.size.toNat ≤ 2 ^ 31) (s : UInt32) :
    w.Fits s := by
  have hlt := Nat.mod_lt s.toNat (size_pos hsize)
  unfold Fits
  omega

/-! What the arithmetic comes to, number by number. -/

theorem distance_of_fits (hsize : w.size ≠ 0) (a : UInt32) (hb : w.Fits b) :
    ∃ d, w.distance a b = .ok d ∧ d.toNat = w.steps a b := by
  obtain ⟨start, hstart, hstartN⟩ := Word.exists_rem hsize a
  obtain ⟨goal, hgoal, hgoalN⟩ := Word.exists_rem hsize b
  have hlt := Nat.mod_lt a.toNat (size_pos hsize)
  obtain ⟨total, htotal, htotalN⟩ := Word.exists_add (a := goal) (b := w.size) (hgoalN ▸ hb)
  obtain ⟨rest, hrest, hrestN⟩ := Word.exists_sub (a := total) (b := start) (by omega)
  obtain ⟨d, hd, hdN⟩ := Word.exists_rem hsize rest
  refine ⟨d, ?_, ?_⟩
  · simp only [Window.distance, hstart, hgoal, htotal, hrest, bind, Except.bind]
    exact hd
  · rw [hdN, hrestN, htotalN, hgoalN, hstartN, steps]

theorem distance_of_not_fits (hsize : w.size ≠ 0) (a : UInt32) (hb : ¬ w.Fits b) :
    w.distance a b = .error .overflow := by
  obtain ⟨start, hstart, -⟩ := Word.exists_rem hsize a
  obtain ⟨goal, hgoal, hgoalN⟩ := Word.exists_rem hsize b
  have htotal : Word.add goal w.size = .error .overflow := if_neg (hgoalN ▸ hb)
  simp only [Window.distance, hstart, hgoal, htotal, bind, Except.bind]

theorem next_of_lt (hsize : w.size ≠ 0) (ha : a.toNat + 1 < 2 ^ 32) :
    ∃ t, w.next a = .ok t ∧ t.toNat = (a.toNat + 1) % w.size.toNat := by
  obtain ⟨more, hmore, hmoreN⟩ := Word.exists_add (a := a) (b := 1) ha
  obtain ⟨t, ht, htN⟩ := Word.exists_rem hsize more
  refine ⟨t, ?_, ?_⟩
  · simp only [Window.next, hmore, bind, Except.bind]
    exact ht
  · rw [htN, hmoreN]
    rfl

theorem lt_of_next (h : w.next s = .ok t) : t.toNat < w.size.toNat := by
  obtain ⟨more, -, hrem⟩ := ok_of_bind h
  unfold Word.rem at hrem
  split at hrem
  · cases hrem
  · next hsize =>
      cases hrem
      rw [UInt32.toNat_mod]
      exact Nat.mod_lt _ (size_pos hsize)

/-- After the last word there is no number, although it is one of some place on the circle. -/
theorem next_last (h : a.toNat + 1 = 2 ^ 32) : w.next a = .error .overflow := by
  have hone : (1 : UInt32).toNat = 1 := rfl
  simp only [Window.next, Word.add, hone, h, bind, Except.bind]
  rfl

theorem prev_of_fits (hsize : w.size ≠ 0) (ha : w.Fits a) : ∃ t, w.prev a = .ok t ∧
    t.toNat = (a.toNat % w.size.toNat + w.size.toNat - 1) % w.size.toNat := by
  have hpos := size_pos hsize
  have hone : (1 : UInt32).toNat = 1 := rfl
  obtain ⟨s, hs, hsN⟩ := Word.exists_rem hsize a
  obtain ⟨total, htotal, htotalN⟩ := Word.exists_add (a := s) (b := w.size) (hsN ▸ ha)
  obtain ⟨rest, hrest, hrestN⟩ := Word.exists_sub (a := total) (b := 1) (by omega)
  obtain ⟨t, ht, htN⟩ := Word.exists_rem hsize rest
  refine ⟨t, ?_, ?_⟩
  · simp only [Window.prev, hs, htotal, hrest, bind, Except.bind]
    exact ht
  · rw [htN, hrestN, htotalN, hsN, hone]

theorem prev_of_not_fits (hsize : w.size ≠ 0) (ha : ¬ w.Fits a) :
    w.prev a = .error .overflow := by
  obtain ⟨s, hs, hsN⟩ := Word.exists_rem hsize a
  have htotal : Word.add s w.size = .error .overflow := if_neg (hsN ▸ ha)
  simp only [Window.prev, hs, htotal, bind, Except.bind]

theorem relate_of_fits (hsize : w.size ≠ 0) (hc : w.Fits c) {r : UInt32} (hr : w.Fits r) :
    w.relate c r = .ok
      (if 1 ≤ w.steps c r ∧ w.steps c r ≤ w.ahead.toNat then .ahead
        else if w.behind.toNat < w.steps r c then .behind else .current) := by
  obtain ⟨forward, hforward, hforwardN⟩ := distance_of_fits hsize c hr
  obtain ⟨backward, hbackward, hbackwardN⟩ := distance_of_fits hsize r hc
  simp only [Window.relate, hforward, hbackward, bind, Except.bind, UInt32.le_iff_toNat_le,
    UInt32.lt_iff_toNat_lt, hforwardN, hbackwardN]
  have hone : (1 : UInt32).toNat = 1 := rfl
  rw [hone]
  split
  · rfl
  · split <;> rfl

theorem exists_last (hsize : w.size ≠ 0) :
    ∃ last, Word.sub w.size 1 = .ok last ∧ last.toNat = w.size.toNat - 1 :=
  Word.exists_sub (size_pos hsize)

/-- Against the last number of the window everything is newer, whether it fits or not. -/
theorem isNewer_last (hsize : w.size ≠ 0) {held : UInt32} (hheld : held.toNat = w.size.toNat - 1)
    (received : UInt32) : w.isNewer (some held) received = .ok true := by
  obtain ⟨last, hlast, hlastN⟩ := exists_last hsize
  simp only [Window.isNewer, hlast, bind, Except.bind]
  rw [if_pos (UInt32.toNat_inj.1 (hheld.trans hlastN.symm))]
  rfl

theorem isNewer_of_ne (hsize : w.size ≠ 0) {held : UInt32} (hheld : held.toNat ≠ w.size.toNat - 1)
    (received : UInt32) : w.isNewer (some held) received = (w.distance held received).map fun forward =>
      decide (1 ≤ forward ∧ forward ≤ w.size / 2) := by
  obtain ⟨last, hlast, hlastN⟩ := exists_last hsize
  have hne : held ≠ last := fun heq => hheld (heq ▸ hlastN)
  simp only [Window.isNewer, hlast, bind, Except.bind]
  rw [if_neg hne]
  cases w.distance held received <;> rfl

theorem isNewer_of_fits (hsize : w.size ≠ 0) (held : UInt32) {received : UInt32}
    (hreceived : w.Fits received) : w.isNewer (some held) received = .ok
      (decide (held.toNat = w.size.toNat - 1 ∨
        1 ≤ w.steps held received ∧ w.steps held received ≤ w.size.toNat / 2)) := by
  by_cases hheld : held.toNat = w.size.toNat - 1
  · rw [isNewer_last hsize hheld]
    simp [hheld]
  · obtain ⟨forward, hforward, hforwardN⟩ := distance_of_fits hsize held hreceived
    rw [isNewer_of_ne hsize hheld, hforward]
    simp [hheld, Except.map, UInt32.le_iff_toNat_le, hforwardN]

/-! Fair windows fit all numbers. -/

theorem Fair.size_ne_zero (h : w.Fair) : w.size ≠ 0 :=
  size_ne_zero_of_lt (s := 0) (Nat.lt_of_lt_of_le (by decide) h.four_le)

theorem Fair.mod_lt (h : w.Fair) (n : Nat) : n % w.size.toNat < w.size.toNat :=
  Nat.mod_lt n (size_pos h.size_ne_zero)

theorem Fair.fits (h : w.Fair) (s : UInt32) : w.Fits s :=
  fits_of_half h.size_ne_zero h.le_half s

theorem Fair.next (h : w.Fair) (hs : a.toNat + 1 < 2 ^ 32) :
    ∃ t, w.next a = .ok t ∧ t.toNat = (a.toNat + 1) % w.size.toNat :=
  next_of_lt h.size_ne_zero hs

theorem Fair.prev (h : w.Fair) (a : UInt32) : ∃ t, w.prev a = .ok t ∧
    t.toNat = (a.toNat % w.size.toNat + w.size.toNat - 1) % w.size.toNat :=
  prev_of_fits h.size_ne_zero (h.fits a)

theorem Fair.relate (h : w.Fair) (c r : UInt32) : w.relate c r = .ok
    (if 1 ≤ w.steps c r ∧ w.steps c r ≤ w.ahead.toNat then .ahead
      else if w.behind.toNat < w.steps r c then .behind else .current) :=
  relate_of_fits h.size_ne_zero (h.fits c) (h.fits r)

theorem Fair.isNewer (h : w.Fair) (held received : UInt32) : w.isNewer (some held) received = .ok
    (decide (held.toNat = w.size.toNat - 1 ∨
      1 ≤ w.steps held received ∧ w.steps held received ≤ w.size.toNat / 2)) :=
  isNewer_of_fits h.size_ne_zero held (h.fits received)

/-! Going round the circle. -/

/-- The number after one of the window is the one above it, or the first after the last. -/
theorem exists_next (hs : s.toNat < w.size.toNat) : ∃ t, w.next s = .ok t ∧
    t.toNat < w.size.toNat ∧ (t.toNat = s.toNat + 1 ∨ s.toNat + 1 = w.size.toNat ∧ t.toNat = 0) := by
  have hword := w.size.toNat_lt
  obtain ⟨t, ht, htN⟩ := next_of_lt (size_ne_zero_of_lt hs) (a := s) (by omega)
  refine ⟨t, ht, lt_of_next ht, ?_⟩
  by_cases hlast : s.toNat + 1 = w.size.toNat
  · rw [hlast, Nat.mod_self] at htN
    exact Or.inr ⟨hlast, htN⟩
  · rw [Nat.mod_eq_of_lt (by omega)] at htN
    exact Or.inl htN

theorem of_next (hs : s.toNat < w.size.toNat) (hnext : w.next s = .ok t) :
    t.toNat < w.size.toNat ∧
      (t.toNat = s.toNat + 1 ∨ s.toNat + 1 = w.size.toNat ∧ t.toNat = 0) := by
  obtain ⟨t', ht', hrest⟩ := exists_next hs
  rw [hnext, Except.ok.injEq] at ht'
  rw [ht']
  exact hrest

/-- The number before one of the window is followed by it. -/
theorem exists_prev (hc : c.toNat < w.size.toNat) (hfits : w.Fits c) :
    ∃ t, w.prev c = .ok t ∧ t.toNat < w.size.toNat ∧ w.next t = .ok c := by
  have hsize := size_ne_zero_of_lt hc
  obtain ⟨t, ht, htN⟩ := prev_of_fits hsize hfits
  have hlt : t.toNat < w.size.toNat := htN ▸ Nat.mod_lt _ (size_pos hsize)
  obtain ⟨u, hu, hult, hcases⟩ := exists_next hlt
  refine ⟨t, ht, hlt, ?_⟩
  rw [hu, Except.ok.injEq, ← UInt32.toNat_inj]
  rw [Nat.mod_eq_of_lt hc] at htN
  by_cases hzero : c.toNat = 0
  · rw [hzero, Nat.zero_add, Nat.mod_eq_of_lt (by omega)] at htN
    omega
  · rw [show c.toNat + w.size.toNat - 1 = c.toNat - 1 + w.size.toNat by omega, Nat.add_mod_right,
      Nat.mod_eq_of_lt (by omega)] at htN
    omega

theorem steps_eq (hsize : w.size ≠ 0) (a b : UInt32) :
    (w.steps a b : Int) = ((b.toNat : Int) - a.toNat) % w.size.toNat := by
  have hlt := Nat.mod_lt a.toNat (size_pos hsize)
  rw [steps, Int.natCast_emod, Int.natCast_sub (by omega), Int.natCast_add, Int.natCast_emod,
    Int.natCast_emod, Int.sub_emod, Int.add_emod_right, Int.emod_emod, Int.emod_emod,
    ← Int.sub_emod]

theorem steps_self (hc : c.toNat < w.size.toNat) : w.steps c c = 0 := by
  rw [steps_of_le hc hc (Nat.le_refl _), Nat.sub_self]

theorem eq_of_steps_eq_zero (hs : s.toNat < w.size.toNat) (hc : c.toNat < w.size.toNat)
    (h : w.steps s c = 0) : s = c := by
  rw [← UInt32.toNat_inj]
  rcases Nat.lt_or_ge c.toNat s.toNat with hlt | hle
  · rw [steps_of_lt hs hc hlt] at h
    omega
  · rw [steps_of_le hs hc hle] at h
    omega

theorem steps_add_steps (hs : s.toNat < w.size.toNat) (hc : c.toNat < w.size.toNat)
    (h : 0 < w.steps s c) : w.steps s c + w.steps c s = w.size.toNat := by
  rcases Nat.lt_trichotomy s.toNat c.toNat with hlt | heq | hlt
  · rw [steps_of_le hs hc (Nat.le_of_lt hlt), steps_of_lt hc hs hlt]
    omega
  · obtain rfl := UInt32.toNat_inj.1 heq
    rw [steps_self hs] at h
    omega
  · rw [steps_of_lt hs hc hlt, steps_of_le hc hs (Nat.le_of_lt hlt)]
    omega

/-- No number of a fair window is the last word. -/
theorem Fair.ne_last (h : w.Fair) (hs : s.toNat < w.size.toNat) : s ≠ 0xFFFFFFFF := by
  have hhalf := h.le_half
  rintro rfl
  exact absurd (Nat.lt_of_lt_of_le hs hhalf) (by decide)

/-- The number after one of a window of at least two is newer. -/
theorem isNewer_next (hs : s.toNat < w.size.toNat) (htwo : 2 ≤ w.size.toNat)
    (hnext : w.next s = .ok t) (hfits : w.Fits t) : w.isNewer (some s) t = .ok true := by
  obtain ⟨ht, hcases⟩ := of_next hs hnext
  rw [isNewer_of_fits (size_ne_zero_of_lt hs) s hfits]
  congr 1
  refine decide_eq_true ?_
  rcases hcases with habove | ⟨hlast, -⟩
  · rw [steps_of_le hs ht (by omega)]
    omega
  · omega

theorem Fair.isNewer_next (h : w.Fair) (hs : s.toNat < w.size.toNat) (hnext : w.next s = .ok t) :
    w.isNewer (some s) t = .ok true :=
  Window.isNewer_next hs (Nat.le_trans (by decide) h.four_le) hnext (h.fits t)

/-- One number on, the way is one step shorter. -/
theorem steps_next (hs : s.toNat < w.size.toNat) (hc : c.toNat < w.size.toNat)
    (hnext : w.next s = .ok t) {n : Nat} (hsteps : w.steps s c = n + 1) : w.steps t c = n := by
  obtain ⟨ht, hcases⟩ := of_next hs hnext
  rcases Nat.lt_or_ge c.toNat s.toNat with hlt | hle
  · rw [steps_of_lt hs hc hlt] at hsteps
    rcases hcases with habove | ⟨hlast, hzero⟩
    · rw [steps_of_lt ht hc (by omega)]
      omega
    · rw [steps_of_le ht hc (by omega)]
      omega
  · rw [steps_of_le hs hc hle] at hsteps
    rcases hcases with habove | ⟨hlast, hzero⟩
    · rw [steps_of_le ht hc (by omega)]
      omega
    · omega

end Window

namespace Config

theorem not_of_refuseIf {bad : Bool} {reason : String} {u : Unit}
    (h : refuseIf bad reason = .ok u) : bad = false := by
  cases bad with
  | false => rfl
  | true => cases h

/-- What the check of a configuration says about its window. -/
theorem window_of_validate {c : Config} (h : c.validate = .ok ()) : 4 ≤ c.windowSize.toNat ∧
    1 ≤ c.aheadThreshold.toNat ∧
      c.aheadThreshold.toNat + c.behindThreshold.toNat < c.windowSize.toNat := by
  unfold validate at h
  obtain ⟨_, -, h⟩ := ok_of_bind h
  obtain ⟨_, -, h⟩ := ok_of_bind h
  obtain ⟨_, -, h⟩ := ok_of_bind h
  obtain ⟨_, -, h⟩ := ok_of_bind h
  obtain ⟨_, -, h⟩ := ok_of_bind h
  obtain ⟨_, hfour, h⟩ := ok_of_bind h
  obtain ⟨_, hroom, -⟩ := ok_of_bind h
  have hfour := of_decide_eq_false (not_of_refuseIf hfour)
  have hroom := not_of_refuseIf hroom
  rw [Bool.or_eq_false_iff, beq_eq_false_iff_ne, decide_eq_false_iff_not, Nat.not_le] at hroom
  refine ⟨?_, ?_, hroom.2⟩
  · rw [UInt32.lt_iff_toNat_lt, Nat.not_lt] at hfour
    exact hfour
  · rw [Nat.one_le_iff_ne_zero]
    exact fun hzero => hroom.1 (UInt32.toNat_inj.1 hzero)

/-- The windows of checked configurations are fair, unless they are too large for words. -/
theorem fair_of_validate {c : Config} (h : c.validate = .ok ())
    (hsize : c.windowSize.toNat ≤ 2 ^ 31) : c.window.Fair :=
  have ⟨hfour, hahead, hroom⟩ := window_of_validate h
  ⟨hfour, hsize, hahead, hroom⟩

end Config

end RegionSync
