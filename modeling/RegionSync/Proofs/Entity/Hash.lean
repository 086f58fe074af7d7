import Mathlib.Logic.Function.Basic
import RegionSync.Proofs.Entity.Key

/-!
Differences that the hash cannot lose. Each step of the hash is a bijection of the state, and
different bytes lead to different states; so byte strings that differ in one byte have different
hashes, whatever comes before and after it. The last name of a list goes into the key byte by byte.
-/

namespace RegionSync

/-- The lists are of one length and differ at exactly one place. -/
def DifferOnce {α : Type} (xs ys : List α) : Prop :=
  xs.length = ys.length ∧ ∃! i : Nat, xs[i]? ≠ ys[i]?

theorem differOnce_iff {α : Type} {xs ys : List α} : DifferOnce xs ys ↔
    ∃ before a b after, a ≠ b ∧ xs = before ++ a :: after ∧ ys = before ++ b :: after := by
  constructor
  · rintro ⟨hlength, i, hi, hunique⟩
    have hsame : ∀ j, j ≠ i → xs[j]? = ys[j]? := fun j hj => by
      by_contra hdiffer
      exact hj (hunique j hdiffer)
    have hin : i < xs.length := by
      by_contra hout
      exact hi (by rw [List.getElem?_eq_none (by omega), List.getElem?_eq_none (by omega)])
    have hin' : i < ys.length := hlength ▸ hin
    refine ⟨xs.take i, xs[i], ys[i], xs.drop (i + 1), ?_, ?_, ?_⟩
    · rw [List.getElem?_eq_getElem hin, List.getElem?_eq_getElem hin'] at hi
      exact fun h => hi (congrArg some h)
    · rw [← List.drop_eq_getElem_cons hin, List.take_append_drop]
    · have htake : xs.take i = ys.take i := by
        apply List.ext_getElem?
        intro j
        rw [List.getElem?_take, List.getElem?_take]
        split
        · next hj => exact hsame j (Nat.ne_of_lt hj)
        · rfl
      have hdrop : xs.drop (i + 1) = ys.drop (i + 1) := by
        apply List.ext_getElem?
        intro j
        rw [List.getElem?_drop, List.getElem?_drop]
        exact hsame _ (by omega)
      rw [htake, hdrop, ← List.drop_eq_getElem_cons hin', List.take_append_drop]
  · rintro ⟨before, a, b, after, hne, rfl, rfl⟩
    refine ⟨by simp, before.length, by simpa using hne, fun j hj => ?_⟩
    by_contra hother
    apply hj
    rcases Nat.lt_or_gt_of_ne hother with hlt | hgt
    · rw [List.getElem?_append_left hlt, List.getElem?_append_left hlt]
    · obtain ⟨k, rfl⟩ := Nat.exists_eq_add_of_lt hgt
      simp [List.getElem?_append_right, Nat.add_assoc]

/-! The hash. -/

/-- The prime of the hash is odd, so that multiplication by it can be undone. -/
theorem mul_prime_injective : Function.Injective fun hash : UInt32 => hash * 16777619 := by
  have hinverse : (16777619 : UInt32) * 899433627 = 1 := by decide
  intro hash hash' h
  have h := congrArg (· * (899433627 : UInt32)) h
  simpa only [UInt32.mul_assoc, hinverse, UInt32.mul_one] using h

theorem hashStep_injective (b : UInt8) :
    Function.Injective fun hash : UInt32 => (hash ^^^ b.toUInt32) * 16777619 :=
  fun _ _ h => (UInt32.xor_left_inj _).1 (mul_prime_injective h)

theorem hashStep_byte_injective (hash : UInt32) :
    Function.Injective fun b : UInt8 => (hash ^^^ b.toUInt32) * 16777619 :=
  fun _ _ h => UInt8.toUInt32_inj.1 ((UInt32.xor_right_inj _).1 (mul_prime_injective h))

/-- Different states of the hash stay different, whatever follows. -/
theorem foldl_hashStep_injective (bytes : Bytes) : Function.Injective fun hash : UInt32 =>
    bytes.foldl (fun hash b => (hash ^^^ b.toUInt32) * 16777619) hash := by
  induction bytes with
  | nil => exact fun _ _ h => h
  | cons b bytes ih => exact fun _ _ h => hashStep_injective b (ih h)

theorem DifferOnce.fnv1a_ne {u v : Bytes} (h : DifferOnce u v) : fnv1a u ≠ fnv1a v := by
  obtain ⟨before, a, b, after, hne, rfl, rfl⟩ := differOnce_iff.1 h
  intro hhash
  rw [fnv1a, fnv1a, List.foldl_append, List.foldl_append, List.foldl_cons, List.foldl_cons] at hhash
  exact hne (hashStep_byte_injective _ (foldl_hashStep_injective after hhash))

/-! The last name. -/

theorem DifferOnce.fold {key text text' : Bytes} (hkey : key ≠ []) (h : DifferOnce text text') :
    DifferOnce (Digest.fold key text) (Digest.fold key text') := by
  refine ⟨by rw [Digest.length_fold, Digest.length_fold, h.1], ?_⟩
  have hplace : ∀ i : Nat, (Digest.fold key text)[i]? ≠ (Digest.fold key text')[i]? ↔
      text[i]? ≠ text'[i]? := by
    intro i
    rw [Digest.getElem?_fold hkey, Digest.getElem?_fold hkey]
    exact (Option.map_injective fun _ _ => (UInt8.xor_left_inj _).1).ne_iff
  simpa only [hplace] using h.2

/-- One byte changed always changes the hash, and so the digest of a list always takes notice when
one byte of its last name is another. -/
theorem one_byte_shows :
    (∀ (names : List EntityName) (a b : EntityName), DifferOnce a.bytes b.bytes →
      Digest.ofNames (names ++ [a]) ≠ Digest.ofNames (names ++ [b])) ∧
    ∀ u v : Bytes, DifferOnce u v → fnv1a u ≠ fnv1a v := by
  refine ⟨fun names a b h => ?_, fun u v h => h.fnv1a_ne⟩
  have hfold := h.fold (Digest.key_ne_nil names)
  rw [Digest.ofNames, Digest.ofNames, Digest.key_append, Digest.key_append]
  exact hfold.fnv1a_ne

/-- The last name tells `p10` from `p11`, though a name behind it would not. -/
theorem one_byte_shows_last_name :
    let p9 : EntityName := ⟨"/h", "p9"⟩
    let p10 : EntityName := ⟨"/h", "p10"⟩
    let p11 : EntityName := ⟨"/h", "p11"⟩
    DifferOnce p10.bytes p11.bytes ∧
      Digest.ofNames ([p9] ++ [p10]) ≠ Digest.ofNames ([p9] ++ [p11]) ∧
      fnv1a p10.bytes ≠ fnv1a p11.bytes := by
  intro p9 p10 p11
  have hdiffer : DifferOnce p10.bytes p11.bytes :=
    differOnce_iff.2 ⟨Text.bytesOf "/h:p1", 48, 49, [], by decide, by decide, by decide⟩
  exact ⟨hdiffer, one_byte_shows.1 [p9] p10 p11 hdiffer, one_byte_shows.2 _ _ hdiffer⟩

end RegionSync
