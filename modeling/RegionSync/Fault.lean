import RegionSync.Power

/-!
Arithmetic without a result. Words of 32 bits are added with a check, and a remainder asks for a
divisor that is not zero; a computation that meets neither condition stops with a `Fault`.
-/

namespace RegionSync

inductive Fault
  | overflow
  | zeroDivisor
  /-- A chance outside `[0, 1]`. -/
  | badChance
  /-- A time span that no clock holds. -/
  | badDuration
  deriving DecidableEq, Repr

/-- Where a chain goes through, so does its first step. -/
theorem ok_of_bind {ε α β : Type} {x : Except ε α} {f : α → Except ε β} {b : β}
    (h : x >>= f = .ok b) : ∃ a, x = .ok a ∧ f a = .ok b := by
  cases x with
  | error => cases h
  | ok a => exact ⟨a, rfl, h⟩

theorem ok_of_mapError {ε δ α : Type} {x : Except ε α} {f : ε → δ} {a : α}
    (h : x.mapError f = .ok a) : x = .ok a := by
  cases x with
  | error => cases h
  | ok b => exact congrArg Except.ok (Except.ok.inj h)

theorem ok_of_toOption {ε α : Type} {x : Except ε α} {a : α} (h : x.toOption = some a) : x = .ok a := by
  cases x with
  | error => cases h
  | ok b => exact congrArg Except.ok (Option.some.inj h)

namespace Word

/-- The sum, if it is a word. -/
def add (a b : UInt32) : Except Fault UInt32 :=
  if a.toNat + b.toNat < 2 ^ 32 then .ok (a + b) else .error .overflow

/-- The difference, if it is a word. -/
def sub (a b : UInt32) : Except Fault UInt32 :=
  if b.toNat ≤ a.toNat then .ok (a - b) else .error .overflow

/-- The remainder, if the divisor is not zero. -/
def rem (a b : UInt32) : Except Fault UInt32 :=
  if b = 0 then .error .zeroDivisor else .ok (a % b)

/-- A checked sum is the sum of the values, and exists exactly when that is a word. -/
theorem add_eq_ok_iff {a b c : UInt32} : add a b = .ok c ↔ a.toNat + b.toNat = c.toNat := by
  unfold add
  constructor
  · intro h
    split at h
    · next lt =>
      cases h
      rw [UInt32.toNat_add, Nat.mod_eq_of_lt lt]
    · cases h
  · intro h
    have lt := c.toNat_lt
    rw [if_pos (by omega)]
    congr 1
    apply UInt32.toNat_inj.1
    rw [UInt32.toNat_add, h, Nat.mod_eq_of_lt lt]

theorem sub_eq_ok_iff {a b c : UInt32} : sub a b = .ok c ↔ a.toNat = b.toNat + c.toNat := by
  unfold sub
  constructor
  · intro h
    split at h
    · next le =>
      cases h
      have := UInt32.toNat_sub_of_le a b (UInt32.le_iff_toNat_le.2 le)
      omega
    · cases h
  · intro h
    have le : b.toNat ≤ a.toNat := by omega
    rw [if_pos le]
    congr 1
    apply UInt32.toNat_inj.1
    rw [UInt32.toNat_sub_of_le a b (UInt32.le_iff_toNat_le.2 le)]
    omega

theorem rem_of_ne_zero {a b : UInt32} (h : b ≠ 0) : rem a b = .ok (a % b) :=
  if_neg h

end Word

end RegionSync
