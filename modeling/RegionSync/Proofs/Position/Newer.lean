import RegionSync.Proofs.Position.Window

/-!
How newness orders the numbers of a window. It is no linear order: the last number is older than all,
itself included, and two numbers half the circle apart are each newer than the other. These are the
only exceptions.
-/

namespace RegionSync.Window

variable {w : Window} {a b s t : UInt32}

/-- The second number lies up to half the circle ahead of the first, unless that is the last. -/
def Advances (w : Window) (s t : UInt32) : Prop :=
  s.toNat = w.size.toNat - 1 ∨ 1 ≤ w.steps s t ∧ w.steps s t ≤ w.size.toNat / 2

/-- Newness is an order on the circle, but for its last number and for opposite ones. -/
structure Orders (w : Window) : Prop where
  total : ∀ a b, a.toNat < w.size.toNat → b.toNat < w.size.toNat → a ≠ b →
    w.isNewer (some a) b = .ok true ∨ w.isNewer (some b) a = .ok true
  antisymm : ∀ a b, a.toNat < w.size.toNat → b.toNat < w.size.toNat → a ≠ b →
    w.isNewer (some a) b = .ok true → w.isNewer (some b) a = .ok true →
      a.toNat = w.size.toNat - 1 ∨ b.toNat = w.size.toNat - 1 ∨
        2 ∣ w.size.toNat ∧ w.steps a b = w.size.toNat / 2
  irrefl : ∀ a, a.toNat < w.size.toNat →
    (w.isNewer (some a) a = .ok true ↔ a.toNat = w.size.toNat - 1)
  prev : ∀ s, s.toNat < w.size.toNat → ∃ t, w.prev s = .ok t ∧ w.isNewer (some t) s = .ok true
  next : ∀ a, a.toNat < w.size.toNat → ∃ t, w.next a = .ok t ∧ w.isNewer (some a) t = .ok true

theorem isNewer_eq_true_iff (hsize : w.size ≠ 0) (s : UInt32) (ht : w.Fits t) :
    w.isNewer (some s) t = .ok true ↔ w.Advances s t := by
  rw [isNewer_of_fits hsize s ht, Except.ok.injEq, decide_eq_true_iff, Advances]

theorem orders_of_half (htwo : 2 ≤ w.size.toNat) (hhalf : w.size.toNat ≤ 2 ^ 31) : w.Orders := by
  have hsize : w.size ≠ 0 := size_ne_zero_of_lt (s := 0) (Nat.lt_of_lt_of_le (by decide) htwo)
  have hfits := fits_of_half hsize hhalf
  have hnewer : ∀ a b, w.isNewer (some a) b = .ok true ↔ w.Advances a b :=
    fun a b => isNewer_eq_true_iff hsize a (hfits b)
  -- The ways from one number to another and back are a lap, so just one of them is the shorter.
  have hlap : ∀ {a b : UInt32}, a.toNat < w.size.toNat → b.toNat < w.size.toNat → a ≠ b →
      1 ≤ w.steps a b ∧ w.steps a b + w.steps b a = w.size.toNat := by
    intro a b ha hb hne
    have hpos := Nat.pos_of_ne_zero fun hzero => hne (eq_of_steps_eq_zero ha hb hzero)
    exact ⟨hpos, steps_add_steps ha hb hpos⟩
  refine ⟨fun a b ha hb hne => ?_, fun a b ha hb hne hab hba => ?_, fun a ha => ?_, fun s hs => ?_,
    fun a ha => ?_⟩
  · obtain ⟨hthere, hsum⟩ := hlap ha hb hne
    obtain ⟨hback, -⟩ := hlap hb ha hne.symm
    rw [hnewer, hnewer, Advances, Advances]
    omega
  · obtain ⟨hthere, hsum⟩ := hlap ha hb hne
    rw [hnewer, Advances] at hab hba
    omega
  · rw [hnewer, Advances, steps_self ha]
    omega
  · obtain ⟨t, hprev, ht, hnext⟩ := exists_prev hs (hfits s)
    exact ⟨t, hprev, isNewer_next ht htwo hnext (hfits s)⟩
  · obtain ⟨t, hnext, -, -⟩ := exists_next ha
    exact ⟨t, hnext, isNewer_next ha htwo hnext (hfits t)⟩

end RegionSync.Window
