import Mathlib.Data.Finset.Prod
import Mathlib.Data.Fintype.Pigeonhole
import RegionSync.Random.Normal

/-!
Draws by rejection. A try that fails leaves the generator a few words further, and under one key there
are fewer states of the generator than a draw has tries. So a draw whose tries all fail has come back to
a state where it was before, and would fail forever: what cuts it short changes no draw that ends.
-/

namespace RegionSync.Random

variable {key : Vector UInt32 8} {g g' : Generator} {α : Type}
  {attempt : Generator → Except Generator α} {n : Nat}

namespace Generator

/-- A generator that draws from the blocks of this key: what is pending is the rest of the last block. -/
structure DrawsFrom (g : Generator) (key : Vector UInt32 8) : Prop where
  same : g.key = key
  pending : g.pending <:+ (block key (g.counter - 1)).toList

theorem drawsFrom_ofSeed (seed : UInt64) : (ofSeed seed).DrawsFrom (ofSeed seed).key :=
  ⟨rfl, List.nil_suffix⟩

namespace DrawsFrom

theorem word (h : g.DrawsFrom key) : g.word.2.DrawsFrom key := by
  obtain ⟨rfl, hpending⟩ := h
  unfold Generator.word
  split
  · next w rest hrest =>
      refine ⟨rfl, ?_⟩
      rw [hrest] at hpending
      exact (List.suffix_cons w rest).trans hpending
  · refine ⟨rfl, ?_⟩
    dsimp only
    rw [UInt64.add_sub_cancel]
    exact List.drop_suffix ..

theorem long (h : g.DrawsFrom key) : g.long.2.DrawsFrom key :=
  h.word.word

theorem fraction64 (h : g.DrawsFrom key) : g.fraction64.2.DrawsFrom key :=
  h.long

theorem openFraction (h : g.DrawsFrom key) : g.openFraction.2.DrawsFrom key :=
  h.long

theorem length_pending_lt (h : g.DrawsFrom key) : g.pending.length < 17 := by
  have hle := h.pending.length_le
  rw [Vector.length_toList] at hle
  omega

/-- Under one key a generator is told by its counter and how much is pending. -/
theorem eq_of_state (h : g.DrawsFrom key) (h' : g'.DrawsFrom key) (hcounter : g.counter = g'.counter)
    (hlength : g.pending.length = g'.pending.length) : g = g' := by
  have hpending : g.pending = g'.pending := by
    have hdrop := List.suffix_iff_eq_drop.1 h.pending
    have hdrop' := List.suffix_iff_eq_drop.1 h'.pending
    rw [hdrop, hdrop', hcounter, hlength]
  obtain ⟨k, c, p⟩ := g
  obtain ⟨k', c', p'⟩ := g'
  rw [mk.injEq]
  exact ⟨h.same.trans h'.same.symm, hcounter, hpending⟩

end DrawsFrom

end Generator

/-- Tries only draw. -/
def OnlyDraws (attempt : Generator → Except Generator α) : Prop :=
  ∀ {key : Vector UInt32 8} {g g' : Generator}, g.DrawsFrom key → attempt g = .error g' →
    g'.DrawsFrom key

/-- Where the next try begins. -/
def retry (attempt : Generator → Except Generator α) (g : Generator) : Generator :=
  match attempt g with
  | .ok _ => g
  | .error g' => g'

theorem retry_of_error (h : attempt g = .error g') : retry attempt g = g' := by
  rw [retry, h]

/-- What holds before each try holds before the one that succeeds. -/
theorem exists_of_persist {drawn : α} {P : Generator → Prop}
    (hfails : ∀ {g g'}, P g → attempt g = .error g' → P g') (hg : P g)
    (h : persist attempt n g = some drawn) : ∃ g', P g' ∧ attempt g' = .ok drawn := by
  induction n generalizing g with
  | zero => cases h
  | succ n ih =>
      rw [persist] at h
      split at h
      · next hdrawn => exact ⟨g, hg, by rw [hdrawn, Option.some.inj h]⟩
      · next hfailed => exact ih (hfails hg hfailed) h

/-- Tries are used up just if each of them has failed. -/
theorem persist_eq_none_iff : persist attempt n g = none ↔
    ∀ i < n, attempt ((retry attempt)^[i] g) = .error ((retry attempt)^[i + 1] g) := by
  induction n generalizing g with
  | zero => simp [persist]
  | succ n ih =>
      rw [persist]
      constructor
      · intro h i hi
        split at h
        · cases h
        · next g' hfails =>
            cases i with
            | zero =>
                rw [Function.iterate_zero_apply, Function.iterate_one, retry_of_error hfails]
                exact hfails
            | succ i =>
                have hrest := ih.1 h i (by omega)
                rwa [← retry_of_error hfails, ← Function.iterate_succ_apply,
                  ← Function.iterate_succ_apply] at hrest
      · intro h
        have hfails := h 0 (Nat.succ_pos n)
        rw [Function.iterate_zero_apply, Function.iterate_one] at hfails
        rw [hfails]
        refine ih.2 fun i hi => ?_
        rw [← Function.iterate_succ_apply, ← Function.iterate_succ_apply]
        exact h (i + 1) (by omega)

/-- There are more tries than states, so two tries begin in the same state. -/
theorem exists_same_of_drawsFrom {tries : Nat → Generator}
    (h : ∀ i < patience, (tries i).DrawsFrom key) :
    ∃ i j, i < j ∧ j < patience ∧ tries i = tries j := by
  let states : Finset (Nat × Nat) := Finset.range (2 ^ 64) ×ˢ Finset.range 17
  let state : Nat → Nat × Nat := fun i => ((tries i).counter.toNat, (tries i).pending.length)
  have hcard : states.card < (Finset.range patience).card := by
    rw [Finset.card_product, Finset.card_range, Finset.card_range, Finset.card_range, patience]
    decide
  have hstate : Set.MapsTo state (Finset.range patience) states := by
    intro i hi
    have hlength := (h i (Finset.mem_range.1 hi)).length_pending_lt
    rw [Finset.mem_coe, Finset.mem_product, Finset.mem_range, Finset.mem_range]
    exact ⟨(tries i).counter.toNat_lt, hlength⟩
  obtain ⟨i, hi, j, hj, hne, hstates⟩ :=
    Finset.exists_ne_map_eq_of_card_lt_of_maps_to hcard hstate
  rw [Finset.mem_range] at hi hj
  rw [Prod.mk.injEq] at hstates
  have hsame := (h i hi).eq_of_state (h j hj) (UInt64.toNat_inj.1 hstates.1) hstates.2
  rcases Nat.lt_or_gt_of_ne hne with hlt | hgt
  · exact ⟨i, j, hlt, hj, hsame⟩
  · exact ⟨j, i, hgt, hi, hsame.symm⟩

/-- A draw that fails as often as there are tries fails as often as one likes. -/
theorem persist_eq_none (hdraws : OnlyDraws attempt) (hg : g.DrawsFrom key)
    (h : persist attempt patience g = none) (n : Nat) : persist attempt n g = none := by
  rw [persist_eq_none_iff] at h ⊢
  have hkey : ∀ i ≤ patience, ((retry attempt)^[i] g).DrawsFrom key := by
    intro i hi
    induction i with
    | zero => exact hg
    | succ i ih => exact hdraws (ih (by omega)) (h i hi)
  obtain ⟨i, j, hij, hj, hsame⟩ := exists_same_of_drawsFrom fun i hi => hkey i (Nat.le_of_lt hi)
  -- So each try begins in a state that was there before.
  have hearlier : ∀ k, ∃ i < j, (retry attempt)^[k] g = (retry attempt)^[i] g := by
    intro k
    induction k with
    | zero => exact ⟨0, by omega, rfl⟩
    | succ k ih =>
        obtain ⟨l, hl, hback⟩ := ih
        have hnext : (retry attempt)^[k + 1] g = (retry attempt)^[l + 1] g := by
          rw [Function.iterate_succ_apply', Function.iterate_succ_apply', hback]
        rcases Nat.lt_or_eq_of_le (Nat.succ_le_of_lt hl) with hlt | heq
        · exact ⟨l + 1, hlt, hnext⟩
        · refine ⟨i, hij, hnext.trans ?_⟩
          rw [hsame, ← heq]
  intro k _
  obtain ⟨l, hl, hback⟩ := hearlier k
  rw [Function.iterate_succ_apply', hback, ← Function.iterate_succ_apply' (retry attempt)]
  exact h l (by omega)

theorem onlyDraws_tailOnce (negative : Bool) : OnlyDraws (tailOnce negative) := by
  intro key g g' hg hfails
  unfold tailOnce at hfails
  dsimp only at hfails
  split at hfails
  · cases hfails
    exact hg.openFraction.openFraction
  · split at hfails
    · cases hfails
    · cases hfails

theorem onlyDraws_layerOnce : OnlyDraws layerOnce := by
  intro key g g' hg hfails
  unfold layerOnce at hfails
  dsimp only at hfails
  split at hfails
  · cases hfails
  · split at hfails
    · cases hfails
    · split at hfails
      · cases hfails
      · cases hfails
        exact hg.long.fraction64

/-- A layer is without a sample where the tail is. -/
theorem tail_of_layerOnce (h : layerOnce g = .ok none) :
    ∃ negative, tail? negative g.long.2 = none := by
  unfold layerOnce at h
  dsimp only at h
  split at h
  · cases h
  · split at h
    · exact ⟨_, Except.ok.inj h⟩
    · split at h
      · cases h
      · cases h

/-- There is no sample only where the draw would go on forever, in the layers or at last in the tail. -/
theorem forever_of_standardNormal (hg : g.DrawsFrom key) (h : standardNormal? g = none) :
    (∀ n, persist layerOnce n g = none) ∨
      ∃ negative g', g'.DrawsFrom key ∧ ∀ n, persist (tailOnce negative) n g' = none := by
  rw [standardNormal?] at h
  cases hdrawn : persist layerOnce patience g with
  | none => exact Or.inl (persist_eq_none onlyDraws_layerOnce hg hdrawn)
  | some drawn =>
      rw [hdrawn] at h
      obtain rfl : drawn = none := h
      obtain ⟨g', hg', htail⟩ := exists_of_persist onlyDraws_layerOnce hg hdrawn
      obtain ⟨negative, hnone⟩ := tail_of_layerOnce htail
      exact Or.inr ⟨negative, _, hg'.long,
        persist_eq_none (onlyDraws_tailOnce negative) hg'.long hnone⟩

end RegionSync.Random
