import Mathlib.Data.List.Induction
import Mathlib.Data.Nat.ModEq
import RegionSync.Position.History

/-!
What a history has after any number of records. A place holds the last record of its residue class,
the number together with the position, so of all numbers of the class only that one is found: the
record of another lap is not served under it, and an older number that comes late displaces a newer.
-/

namespace RegionSync.History

variable {h : History} {s : UInt32}

/-- The history after these records, in their order. -/
def recordAll (h : History) (records : List (UInt32 × Point)) : History :=
  records.foldl (fun h r => h.record r.1 r.2) h

/-- The last of the records whose number is congruent to this one. -/
def lastAlike? (modulus : Nat) (s : UInt32) (records : List (UInt32 × Point)) :
    Option (UInt32 × Point) :=
  records.reverse.find? fun r => decide (r.1.toNat ≡ s.toNat [MOD modulus])

theorem recordAll_concat (records : List (UInt32 × Point)) (r : UInt32 × Point) :
    h.recordAll (records ++ [r]) = (h.recordAll records).record r.1 r.2 := by
  rw [recordAll, List.foldl_append]
  rfl

theorem lastAlike?_concat (modulus : Nat) (s : UInt32) (records : List (UInt32 × Point))
    (r : UInt32 × Point) :
    lastAlike? modulus s (records ++ [r]) =
      if r.1.toNat ≡ s.toNat [MOD modulus] then some r else lastAlike? modulus s records := by
  rw [lastAlike?, List.reverse_append, List.reverse_singleton, List.singleton_append, List.find?_cons]
  by_cases hlike : r.1.toNat ≡ s.toNat [MOD modulus]
  · simp [hlike]
  · simp [hlike, lastAlike?]

theorem capacity_recordAll (records : List (UInt32 × Point)) :
    (h.recordAll records).capacity = h.capacity := by
  induction records using List.reverseRecOn with
  | nil => rfl
  | append_singleton records r ih =>
      rw [recordAll_concat]
      exact ih

/-- A place holds the last record of its residue class. -/
theorem held_recordAll (window : UInt32) (records : List (UInt32 × Point)) (s : UInt32) :
    ((empty window).recordAll records).records[(empty window).place s]? =
      lastAlike? (max window.toNat 1) s records := by
  induction records using List.reverseRecOn with
  | nil => rfl
  | append_singleton records r ih =>
      have hplace : ((empty window).recordAll records).place r.1 = (empty window).place r.1 := by
        rw [place, place, capacity_recordAll]
      have hlike : (empty window).place r.1 = (empty window).place s ↔
          r.1.toNat ≡ s.toNat [MOD max window.toNat 1] := Iff.rfl
      rw [recordAll_concat, lastAlike?_concat, record, hplace, Std.TreeMap.getElem?_insert, ← ih]
      by_cases heq : (empty window).place r.1 = (empty window).place s
      · rw [if_pos (hlike.1 heq), if_pos (Std.LawfulEqCmp.compare_eq_iff_eq.2 heq)]
      · rw [if_neg (mt hlike.2 heq), if_neg (mt Std.LawfulEqCmp.compare_eq_iff_eq.1 heq)]

/-- A position is found under a number exactly if it was recorded under it, and since then nothing
was under any number of its residue class. -/
theorem get?_recordAll_iff (window : UInt32) (records : List (UInt32 × Point)) (s : UInt32)
    (p : Point) :
    ((empty window).recordAll records).get? s = some p ↔
      lastAlike? (max window.toNat 1) s records = some (s, p) := by
  have hplace : ((empty window).recordAll records).place s = (empty window).place s := by
    rw [place, place, capacity_recordAll]
  rw [get?, hplace, held_recordAll]
  cases lastAlike? (max window.toNat 1) s records with
  | none => simp
  | some r =>
      obtain ⟨t, q⟩ := r
      by_cases hsame : t = s
      · simp [hsame]
      · simp [hsame]

/-- After numbers of three laps through one place, only the last one that came is found, here the
oldest. -/
example : let h := (empty 4).recordAll [(5, ⟨.zero, .zero, .zero⟩), (9, ⟨.zero, .zero, .zero⟩),
      (1, ⟨.zero, .zero, .ofNat 1⟩)]
    h.get? 1 = some ⟨.zero, .zero, .ofNat 1⟩ ∧ h.get? 5 = none ∧ h.get? 9 = none := by
  decide +kernel

end RegionSync.History
