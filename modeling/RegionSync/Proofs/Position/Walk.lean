import Mathlib.Data.Nat.ModEq
import Mathlib.Order.Interval.Finset.Nat
import RegionSync.Proofs.Position.Window

/-!
Walking around the circle of sequence numbers. A number is ahead of the current one exactly if a few
steps forward lead to it, and current exactly if a few steps back do; the thresholds of a checked
window keep the two walks from meeting, so the numbers of each kind can be counted.
-/

namespace RegionSync.Window

variable {w : Window} {a b c r s t : UInt32} {k : Nat}

/-- The number reached by this step, taken so many times. -/
def walk (step : UInt32 → Except Fault UInt32) : Nat → UInt32 → Except Fault UInt32
  | 0, s => .ok s
  | k + 1, s => step s >>= walk step k

/-- Between `least` and `most` of these steps lead from one number to the place of the other. -/
def Reaches (w : Window) (step : UInt32 → Except Fault UInt32) (least most : Nat) (s r : UInt32) :
    Prop :=
  ∃ k, least ≤ k ∧ k ≤ most ∧ walk step k s = .ok (r % w.size)

/-- The numbers of the window that relate to the current one in this way. -/
def related (w : Window) (c : UInt32) (relation : Relation) : Finset Nat :=
  (Finset.range w.size.toNat).filter fun n => w.relate c (.ofNat n) = .ok relation

/-! Steps and places. -/

theorem steps_mod_left (w : Window) (a b : UInt32) : w.steps (a % w.size) b = w.steps a b := by
  rw [steps, steps, UInt32.toNat_mod, Nat.mod_mod]

theorem steps_mod_right (w : Window) (a b : UInt32) : w.steps a (b % w.size) = w.steps a b := by
  rw [steps, steps, UInt32.toNat_mod, Nat.mod_mod]

theorem steps_lt (hs : s.toNat < w.size.toNat) (t : UInt32) : w.steps s t < w.size.toNat :=
  Nat.mod_lt _ (Nat.zero_lt_of_lt hs)

/-- Less than a lap on from a number, each place is so many steps away. -/
theorem steps_eq_iff (hs : s.toNat < w.size.toNat) (ht : t.toNat < w.size.toNat)
    (hk : k < w.size.toNat) : w.steps s t = k ↔ (s.toNat + k) % w.size.toNat = t.toNat := by
  have hplace : (s.toNat + k) % w.size.toNat =
      if s.toNat + k < w.size.toNat then s.toNat + k else s.toNat + k - w.size.toNat := by
    split
    · next hlt => exact Nat.mod_eq_of_lt hlt
    · next hge => rw [Nat.mod_eq_sub_mod (Nat.not_lt.1 hge), Nat.mod_eq_of_lt (by omega)]
  rw [hplace]
  rcases Nat.lt_or_ge t.toNat s.toNat with hlt | hle
  · rw [steps_of_lt hs ht hlt]
    split <;> omega
  · rw [steps_of_le hs ht hle]
    split <;> omega

/-! Where a walk leads. -/

theorem exists_walk_next (hs : s.toNat < w.size.toNat) (k : Nat) : ∃ t, walk w.next k s = .ok t ∧
    t.toNat = (s.toNat + k) % w.size.toNat := by
  induction k generalizing s with
  | zero => exact ⟨s, rfl, (Nat.mod_eq_of_lt hs).symm⟩
  | succ k ih =>
      have hword := w.size.toNat_lt
      obtain ⟨q, hq, hqN⟩ := next_of_lt (size_ne_zero_of_lt hs) (a := s) (by omega)
      obtain ⟨t, ht, htN⟩ := ih (lt_of_next hq)
      refine ⟨t, ?_, ?_⟩
      · rw [walk, hq]
        exact ht
      · rw [htN, hqN, Nat.mod_add_mod, Nat.add_assoc, Nat.add_comm 1 k]

theorem exists_walk_prev (hfits : ∀ s, w.Fits s) (hs : s.toNat < w.size.toNat) (k : Nat) :
    ∃ t, walk w.prev k s = .ok t ∧ t.toNat < w.size.toNat ∧
      (t.toNat + k) % w.size.toNat = s.toNat := by
  induction k generalizing s with
  | zero => exact ⟨s, rfl, hs, Nat.mod_eq_of_lt hs⟩
  | succ k ih =>
      obtain ⟨q, hq, hlt, hnext⟩ := exists_prev hs (hfits s)
      obtain ⟨t, ht, htlt, htN⟩ := ih hlt
      have hword := w.size.toNat_lt
      obtain ⟨s', hs', hsN⟩ := next_of_lt (size_ne_zero_of_lt hs) (a := q) (by omega)
      rw [hnext, Except.ok.injEq] at hs'
      refine ⟨t, ?_, htlt, ?_⟩
      · rw [walk, hq]
        exact ht
      · rw [hs', hsN, ← htN, Nat.mod_add_mod, Nat.add_assoc]

theorem walk_next_iff (hs : s.toNat < w.size.toNat) (r : UInt32) (hk : k < w.size.toNat) :
    walk w.next k s = .ok (r % w.size) ↔ w.steps s r = k := by
  have hr := mod_size_lt (size_ne_zero_of_lt hs) r
  obtain ⟨t, ht, htN⟩ := exists_walk_next hs k
  rw [ht, Except.ok.injEq, ← UInt32.toNat_inj, htN, ← steps_mod_right, steps_eq_iff hs hr hk]

theorem walk_prev_iff (hfits : ∀ s, w.Fits s) (hs : s.toNat < w.size.toNat) (r : UInt32)
    (hk : k < w.size.toNat) : walk w.prev k s = .ok (r % w.size) ↔ w.steps r s = k := by
  have hr := mod_size_lt (size_ne_zero_of_lt hs) r
  obtain ⟨t, ht, htlt, htN⟩ := exists_walk_prev hfits hs k
  rw [ht, Except.ok.injEq, ← steps_mod_left]
  constructor
  · rintro rfl
    exact (steps_eq_iff htlt hs hk).2 htN
  · -- two places from which `k` steps lead to the same one are the same
    intro hsteps
    have hrN := (steps_eq_iff hr hs hk).1 hsteps
    have hsame : t.toNat ≡ (r % w.size).toNat [MOD w.size.toNat] :=
      Nat.ModEq.add_right_cancel' k (htN.trans hrN.symm)
    exact UInt32.toNat_inj.1 (hsame.eq_of_lt_of_lt htlt hr)

/-- Of the steps of less than a lap just one number leads to a place, if any. -/
theorem reaches_iff {step : UInt32 → Except Fault UInt32} {least most d : Nat}
    (hwalk : ∀ k, k < w.size.toNat → (walk step k s = .ok (r % w.size) ↔ d = k))
    (hmost : most < w.size.toNat) : w.Reaches step least most s r ↔ least ≤ d ∧ d ≤ most := by
  constructor
  · rintro ⟨k, hleast, hle, hk⟩
    rw [(hwalk k (Nat.lt_of_le_of_lt hle hmost)).1 hk]
    exact ⟨hleast, hle⟩
  · rintro ⟨hleast, hle⟩
    exact ⟨d, hleast, hle, (hwalk d (Nat.lt_of_le_of_lt hle hmost)).2 rfl⟩

/-! The three kinds of numbers, by their steps. -/

theorem steps_around (hs : s.toNat < w.size.toNat) (h : 0 < w.steps s r) :
    w.steps s r + w.steps r s = w.size.toNat := by
  rw [← steps_mod_right w s r] at h ⊢
  rw [← steps_mod_left w r s]
  exact steps_add_steps hs (mod_size_lt (size_ne_zero_of_lt hs) r) h

theorem steps_back_of_eq_zero (hs : s.toNat < w.size.toNat) (h : w.steps s r = 0) :
    w.steps r s = 0 := by
  rw [← steps_mod_right w s r] at h
  rw [← steps_mod_left w r s, ← eq_of_steps_eq_zero hs (mod_size_lt (size_ne_zero_of_lt hs) r) h]
  exact steps_self hs

/-- The steps back by those forward: what is missing to a lap. -/
theorem steps_back_le_iff (hs : s.toNat < w.size.toNat) (r : UInt32) :
    w.steps r s ≤ k ↔ w.steps s r = 0 ∨ w.size.toNat ≤ w.steps s r + k := by
  rcases Nat.eq_zero_or_pos (w.steps s r) with hzero | hpos
  · rw [steps_back_of_eq_zero hs hzero, hzero]
    omega
  · have hlap := steps_around hs hpos
    omega

section Kinds

variable (hfits : ∀ s, w.Fits s) (hroom : w.ahead.toNat + w.behind.toNat < w.size.toNat)
  (hs : s.toNat < w.size.toNat) (r : UInt32)
include hfits hroom hs

/-- The relation by the steps forward alone. -/
theorem relate_of_steps : w.relate s r = .ok
    (if w.steps s r = 0 ∨ w.size.toNat ≤ w.steps s r + w.behind.toNat then .current
      else if w.steps s r ≤ w.ahead.toNat then .ahead else .behind) := by
  have hback := steps_back_le_iff (k := w.behind.toNat) hs r
  rw [relate_of_fits (size_ne_zero_of_lt hs) (hfits s) (hfits r)]
  congr 1
  split_ifs <;> first | rfl | omega

theorem relate_eq_ahead_iff : w.relate s r = .ok .ahead ↔
    1 ≤ w.steps s r ∧ w.steps s r ≤ w.ahead.toNat := by
  rw [relate_of_steps hfits hroom hs r]
  split_ifs <;> simp only [Except.ok.injEq, reduceCtorEq, true_iff, false_iff] <;> omega

theorem relate_eq_current_iff : w.relate s r = .ok .current ↔
    w.steps s r = 0 ∨ w.size.toNat ≤ w.steps s r + w.behind.toNat := by
  rw [relate_of_steps hfits hroom hs r]
  split_ifs <;> simp only [Except.ok.injEq, reduceCtorEq, true_iff, false_iff] <;> assumption

theorem relate_eq_behind_iff : w.relate s r = .ok .behind ↔
    w.ahead.toNat < w.steps s r ∧ w.steps s r + w.behind.toNat < w.size.toNat := by
  rw [relate_of_steps hfits hroom hs r]
  split_ifs <;> simp only [Except.ok.injEq, reduceCtorEq, true_iff, false_iff] <;> omega

end Kinds

/-! How many numbers there are of each kind. -/

/-- Going round once from a number passes each place once: the places at some steps from it are as
many as the steps. -/
theorem card_steps (hs : s.toNat < w.size.toNat) (p : Nat → Prop) [DecidablePred p] :
    ((Finset.range w.size.toNat).filter fun n => p (w.steps s (.ofNat n))).card =
      ((Finset.range w.size.toNat).filter p).card := by
  have hword := w.size.toNat_lt
  have hpos : 0 < w.size.toNat := Nat.zero_lt_of_lt hs
  have hplace : ∀ n, n < w.size.toNat → (UInt32.ofNat n).toNat = n := by
    intro n hn
    exact UInt32.toNat_ofNat_of_lt' (Nat.lt_trans hn hword)
  have hthere : ∀ n, n < w.size.toNat → (s.toNat + w.steps s (.ofNat n)) % w.size.toNat = n := by
    intro n hn
    have hlt : (UInt32.ofNat n).toNat < w.size.toNat := (hplace n hn).symm ▸ hn
    rw [(steps_eq_iff hs hlt (steps_lt hs _)).1 rfl, hplace n hn]
  have hback : ∀ d, d < w.size.toNat → w.steps s (.ofNat ((s.toNat + d) % w.size.toNat)) = d := by
    intro d hd
    have hlt := Nat.mod_lt (s.toNat + d) hpos
    rw [steps_eq_iff hs (by rwa [hplace _ hlt]) hd, hplace _ hlt]
  refine Finset.card_nbij' (fun n => w.steps s (.ofNat n))
    (fun d => (s.toNat + d) % w.size.toNat) ?_ ?_ ?_ ?_
  · intro n hn
    simp only [Finset.coe_filter, Finset.mem_range, Set.mem_ofPred_eq] at hn ⊢
    exact ⟨steps_lt hs _, hn.2⟩
  · intro d hd
    simp only [Finset.coe_filter, Finset.mem_range, Set.mem_ofPred_eq] at hd ⊢
    rw [hback d hd.1]
    exact ⟨Nat.mod_lt _ hpos, hd.2⟩
  · intro n hn
    exact hthere n (Finset.mem_range.1 (Finset.mem_filter.1 hn).1)
  · intro d hd
    exact hback d (Finset.mem_range.1 (Finset.mem_filter.1 hd).1)

/-- The numbers of a kind are as many as the steps forward that lead to one. -/
theorem card_related (hs : s.toNat < w.size.toNat) {relation : Relation} (steps : Finset Nat)
    (hsteps : ∀ r, w.relate s r = .ok relation ↔ w.steps s r ∈ steps)
    (hlap : ∀ d ∈ steps, d < w.size.toNat) : (w.related s relation).card = steps.card := by
  have hall : (Finset.range w.size.toNat).filter (· ∈ steps) = steps := by
    ext d
    rw [Finset.mem_filter, Finset.mem_range]
    exact ⟨And.right, fun hd => ⟨hlap d hd, hd⟩⟩
  rw [← congrArg Finset.card hall, ← card_steps hs, related]
  simp only [hsteps]

section Counts

variable (hfits : ∀ s, w.Fits s) (hroom : w.ahead.toNat + w.behind.toNat < w.size.toNat)
  (hs : s.toNat < w.size.toNat)
include hfits hroom hs

theorem card_ahead : (w.related s .ahead).card = w.ahead.toNat := by
  rw [card_related hs (Finset.Icc 1 w.ahead.toNat) fun r => ?_]
  · rw [Nat.card_Icc, Nat.add_sub_cancel]
  · intro d hd
    rw [Finset.mem_Icc] at hd
    omega
  · rw [relate_eq_ahead_iff hfits hroom hs, Finset.mem_Icc]

theorem card_current : (w.related s .current).card = w.behind.toNat + 1 := by
  rw [card_related hs (insert 0 (Finset.Ico (w.size.toNat - w.behind.toNat) w.size.toNat))
    fun r => ?_]
  · rw [Finset.card_insert_of_notMem, Nat.card_Ico]
    · omega
    · rw [Finset.mem_Ico]
      omega
  · intro d hd
    rw [Finset.mem_insert, Finset.mem_Ico] at hd
    omega
  · have hlt := steps_lt hs r
    rw [relate_eq_current_iff hfits hroom hs, Finset.mem_insert, Finset.mem_Ico]
    omega

theorem card_behind : (w.related s .behind).card =
    w.size.toNat - w.ahead.toNat - w.behind.toNat - 1 := by
  rw [card_related hs (Finset.Ioo w.ahead.toNat (w.size.toNat - w.behind.toNat)) fun r => ?_]
  · rw [Nat.card_Ioo]
    omega
  · intro d hd
    rw [Finset.mem_Ioo] at hd
    omega
  · rw [relate_eq_behind_iff hfits hroom hs, Finset.mem_Ioo]
    omega

end Counts

/-- A number is ahead of one of the window if some of the steps forward that may be missing lead to
it, current if some of the steps back that are served do, and behind if neither. No number is reached
both ways, so of each kind there are as many numbers as steps; the thresholds of a checked
configuration leave the room this needs. -/
theorem relate_iff_walk (hhalf : w.size.toNat ≤ 2 ^ 31)
    (hroom : w.ahead.toNat + w.behind.toNat < w.size.toNat) (hs : s.toNat < w.size.toNat) :
    (∀ r : UInt32,
      (w.relate s r = .ok .ahead ↔ w.Reaches w.next 1 w.ahead.toNat s r) ∧
      (w.relate s r = .ok .current ↔ w.Reaches w.prev 0 w.behind.toNat s r) ∧
      (w.relate s r = .ok .behind ↔
        ¬ w.Reaches w.next 1 w.ahead.toNat s r ∧ ¬ w.Reaches w.prev 0 w.behind.toNat s r) ∧
      ¬ (w.Reaches w.next 1 w.ahead.toNat s r ∧ w.Reaches w.prev 0 w.behind.toNat s r)) ∧
    (w.related s .ahead).card = w.ahead.toNat ∧
    (w.related s .current).card = w.behind.toNat + 1 ∧
    (w.related s .behind).card = w.size.toNat - w.ahead.toNat - w.behind.toNat - 1 := by
  have hfits := fits_of_half (size_ne_zero_of_lt hs) hhalf
  refine ⟨fun r => ?_, card_ahead hfits hroom hs, card_current hfits hroom hs,
    card_behind hfits hroom hs⟩
  rw [reaches_iff (fun _ => walk_next_iff hs r) (by omega),
    reaches_iff (fun _ => walk_prev_iff hfits hs r) (by omega), steps_back_le_iff hs,
    relate_eq_ahead_iff hfits hroom hs, relate_eq_current_iff hfits hroom hs,
    relate_eq_behind_iff hfits hroom hs]
  omega

/-- On the smallest window, from its last number, the walks forward go through zero. -/
theorem relate_iff_walk_smallest :
    let config : Config := { windowSize := 4, aheadThreshold := 2, behindThreshold := 1 }
    let w := config.window
    config.validate = .ok () ∧ w.relate 3 1 = .ok .ahead ∧ w.Reaches w.next 1 2 3 1 ∧
      w.Reaches w.prev 0 1 3 2 ∧ w.relate 3 0xFFFFFFFE = .ok .current ∧
      (w.related 3 .ahead).card = 2 ∧ (w.related 3 .current).card = 2 ∧
      (w.related 3 .behind).card = 0 := by
  intro config w
  have hvalid : config.validate = .ok () := ok_of_toOption (by decide +kernel)
  obtain ⟨-, -, hroom⟩ := Config.window_of_validate hvalid
  have hahead : w.relate 3 1 = .ok .ahead := ok_of_toOption (by decide +kernel)
  have hcurrent : w.relate 3 2 = .ok .current := ok_of_toOption (by decide +kernel)
  have hfar : w.relate 3 0xFFFFFFFE = .ok .current := ok_of_toOption (by decide +kernel)
  obtain ⟨hkinds, hcards⟩ := relate_iff_walk (w := w) (s := 3) (by decide) hroom (by decide)
  exact ⟨hvalid, hahead, (hkinds 1).1.1 hahead, (hkinds 2).2.1.1 hcurrent, hfar, hcards⟩

end RegionSync.Window
