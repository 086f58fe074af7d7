import RegionSync.Proofs.Position.Window

/-!
How exact the arithmetic of a checked window is. The check puts no bound on the size, and all but one
of the operations add it to a number before they reduce: they are exact on numbers that fit and
overflow on others. All numbers fit exactly if the size is at most half of all words.
-/

namespace RegionSync

/-- The computation has this whole number as its result. -/
def Word.Gives (x : Except Fault UInt32) (n : Int) : Prop :=
  ∃ c, x = .ok c ∧ (c.toNat : Int) = n

namespace Window

variable {w : Window} {a c r held : UInt32}

/-- The last number of the window asks for the most room. -/
theorem fits_iff_half (hsize : w.size ≠ 0) : (∀ s, w.Fits s) ↔ w.size.toNat ≤ 2 ^ 31 := by
  have hpos := size_pos hsize
  constructor
  · intro hall
    obtain ⟨last, -, hlastN⟩ := exists_last hsize
    have hlast := hall last
    rw [Fits, hlastN, Nat.mod_eq_of_lt (by omega)] at hlast
    omega
  · exact fits_of_half hsize

theorem gives_distance (hsize : w.size ≠ 0) (a : UInt32) {b : UInt32} (hb : w.Fits b) :
    Word.Gives (w.distance a b) (((b.toNat : Int) - a.toNat) % w.size.toNat) := by
  obtain ⟨d, hd, hdN⟩ := distance_of_fits hsize a hb
  exact ⟨d, hd, by rw [hdN, steps_eq hsize]⟩

theorem gives_prev (hsize : w.size ≠ 0) (ha : w.Fits a) :
    Word.Gives (w.prev a) (((a.toNat : Int) - 1) % w.size.toNat) := by
  have hpos := size_pos hsize
  obtain ⟨t, ht, htN⟩ := prev_of_fits hsize ha
  have hback : ((a.toNat % w.size.toNat + w.size.toNat - 1 : Nat) : Int) =
      (a.toNat : Int) % w.size.toNat - 1 + w.size.toNat := by omega
  refine ⟨t, ht, ?_⟩
  rw [htN, Int.natCast_emod, hback, Int.add_emod_right, Int.emod_sub_emod]

theorem gives_next (ha : a.toNat < w.size.toNat) :
    Word.Gives (w.next a) (((a.toNat : Int) + 1) % w.size.toNat) := by
  have hword := w.size.toNat_lt
  obtain ⟨t, ht, htN⟩ := next_of_lt (size_ne_zero_of_lt ha) (a := a) (by omega)
  exact ⟨t, ht, by rw [htN]; rfl⟩

/-- One step back and one on again is the number reduced to the window. -/
theorem next_prev (hsize : w.size ≠ 0) (ha : w.Fits a) :
    w.prev a >>= w.next = .ok (a % w.size) := by
  have hlt := mod_size_lt hsize a
  have hagain : a % w.size % w.size = a % w.size :=
    UInt32.toNat_inj.1 (by rw [UInt32.toNat_mod, Nat.mod_eq_of_lt hlt])
  have hreduced : w.prev a = w.prev (a % w.size) := by
    rw [prev, prev, Word.rem_of_ne_zero hsize, Word.rem_of_ne_zero hsize, hagain]
  have hfits : w.Fits (a % w.size) := by
    rw [Fits, UInt32.toNat_mod, Nat.mod_mod]
    exact ha
  obtain ⟨t, hprev, -, hnext⟩ := exists_prev hlt hfits
  rw [hreduced, hprev]
  exact hnext

theorem relate_of_not_fits (hsize : w.size ≠ 0) (h : ¬ (w.Fits c ∧ w.Fits r)) :
    w.relate c r = .error .overflow := by
  by_cases hr : w.Fits r
  · obtain ⟨forward, hforward, -⟩ := distance_of_fits hsize c hr
    rw [relate, hforward, distance_of_not_fits hsize r fun hc => h ⟨hc, hr⟩]
    rfl
  · rw [relate, distance_of_not_fits hsize c hr]
    rfl

theorem isNewer_of_not_fits (hsize : w.size ≠ 0) (hheld : held.toNat ≠ w.size.toNat - 1)
    (hr : ¬ w.Fits r) : w.isNewer (some held) r = .error .overflow := by
  rw [isNewer_of_ne hsize hheld, distance_of_not_fits hsize held hr]
  rfl

/-- In the window of a checked configuration distances and steps are those of whole numbers modulo
the size, on numbers that fit; on others the sum with the size overflows. So nothing overflows on any
words exactly if the size is at most half of them. -/
theorem exact_iff_half {config : Config} (h : config.validate = .ok ()) :
    let w := config.window
    (∀ a b : UInt32,
      (w.Fits b → Word.Gives (w.distance a b) (((b.toNat : Int) - a.toNat) % w.size.toNat)) ∧
      (¬ w.Fits b → w.distance a b = .error .overflow)) ∧
    (∀ a : UInt32,
      (w.Fits a → Word.Gives (w.prev a) (((a.toNat : Int) - 1) % w.size.toNat) ∧
        w.prev a >>= w.next = .ok (a % w.size)) ∧
      (¬ w.Fits a → w.prev a = .error .overflow)) ∧
    (∀ a : UInt32, a.toNat < w.size.toNat →
      Word.Gives (w.next a) (((a.toNat : Int) + 1) % w.size.toNat)) ∧
    (∀ c r : UInt32,
      (w.Fits c ∧ w.Fits r → ∃ relation, w.relate c r = .ok relation) ∧
      (¬ (w.Fits c ∧ w.Fits r) → w.relate c r = .error .overflow)) ∧
    (∀ held r : UInt32,
      (held.toNat = w.size.toNat - 1 ∨ w.Fits r → ∃ newer, w.isNewer (some held) r = .ok newer) ∧
      (held.toNat ≠ w.size.toNat - 1 ∧ ¬ w.Fits r →
        w.isNewer (some held) r = .error .overflow)) ∧
    ((∀ a : UInt32, w.Fits a) ↔ w.size.toNat ≤ 2 ^ 31) := by
  intro w
  have hsize : w.size ≠ 0 :=
    size_ne_zero_of_lt (s := 0) (Nat.lt_of_lt_of_le (by decide) (Config.window_of_validate h).1)
  refine ⟨fun a b => ⟨gives_distance hsize a, distance_of_not_fits hsize a⟩,
    fun a => ⟨fun ha => ⟨gives_prev hsize ha, next_prev hsize ha⟩, prev_of_not_fits hsize⟩,
    fun a => gives_next, fun c r => ⟨fun hfit => ?_, relate_of_not_fits hsize⟩,
    fun held r => ⟨?_, fun hfit => isNewer_of_not_fits hsize hfit.1 hfit.2⟩, fits_iff_half hsize⟩
  · exact ⟨_, relate_of_fits hsize hfit.1 hfit.2⟩
  · rintro (hlast | hr)
    · exact ⟨true, isNewer_last hsize hlast r⟩
    · exact ⟨_, isNewer_of_fits hsize held hr⟩

/-- A window of all words but one passes the check, and the five steps from 0 to 5 overflow in it,
as does the step back from 1; the usual window has both. -/
theorem exact_iff_half_widest :
    let widest : Config := { windowSize := 0xFFFFFFFF }
    let usual : Config := {}
    widest.validate = .ok () ∧ usual.validate = .ok () ∧
      widest.window.distance 0 5 = .error .overflow ∧ widest.window.prev 1 = .error .overflow ∧
      ¬ (∀ a : UInt32, widest.window.Fits a) ∧
      Word.Gives (usual.window.distance 0 5) 5 ∧ Word.Gives (usual.window.prev 1) 0 := by
  intro widest usual
  have hwidest : widest.validate = .ok () := ok_of_toOption (by decide +kernel)
  have husual : usual.validate = .ok () := ok_of_toOption (by decide +kernel)
  obtain ⟨hdistance, hprev, -, -, -, hhalf⟩ := exact_iff_half hwidest
  obtain ⟨hdistance', hprev', -, -, -, hhalf'⟩ := exact_iff_half husual
  have hfits := hhalf'.2 (by decide)
  refine ⟨hwidest, husual, (hdistance 0 5).2 (by decide +kernel), (hprev 1).2 (by decide +kernel),
    fun hall => absurd (hhalf.1 hall) (by decide), (hdistance' 0 5).1 (hfits 5), ?_⟩
  exact ((hprev' 1).1 (hfits 1)).1

end Window

end RegionSync
