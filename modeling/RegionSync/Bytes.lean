import RegionSync.Power

/-! Byte strings, and whole numbers written in them with the low byte first. -/

namespace RegionSync

abbrev Bytes := List UInt8

namespace LowFirst

/-- The low `count` bytes of a number. -/
def bytes : Nat → Nat → Bytes
  | 0, _ => []
  | count + 1, n => UInt8.ofNat (n % 256) :: bytes count (n / 256)

def number (bs : Bytes) : Nat :=
  bs.foldr (fun b n => b.toNat + 256 * n) 0

@[simp] theorem length_bytes (count n : Nat) : (bytes count n).length = count := by
  induction count generalizing n with
  | zero => rfl
  | succ count ih => simp [bytes, ih]

/-- Reading gives back what was written, up to the bytes that fit. -/
theorem number_bytes (count n : Nat) : number (bytes count n) = n % 256 ^ count := by
  induction count generalizing n with
  | zero => simp [bytes, number, Nat.mod_one]
  | succ count ih =>
    have step : number (bytes (count + 1) n) = n % 256 + 256 * number (bytes count (n / 256)) := by
      simp [bytes, number]
    rw [step, ih, Nat.pow_succ, Nat.mul_comm (256 ^ count) 256, Nat.mod_mul]

/-- Writing gives back what was read. -/
theorem bytes_number (bs : Bytes) : bytes bs.length (number bs) = bs := by
  induction bs with
  | nil => rfl
  | cons b bs ih =>
    have hb := b.toNat_lt
    have hnumber : number (b :: bs) = b.toNat + 256 * number bs := rfl
    have hlow : number (b :: bs) % 256 = b.toNat := by omega
    have hrest : number (b :: bs) / 256 = number bs := by omega
    rw [List.length_cons, bytes, hlow, hrest, ih, UInt8.ofNat_toNat]

theorem number_lt (bs : Bytes) : number bs < 256 ^ bs.length := by
  induction bs with
  | nil => simp [number]
  | cons b bs ih =>
    have := b.toNat_lt
    simp only [number, List.foldr_cons, List.length_cons, Nat.pow_succ] at ih ⊢
    omega

end LowFirst

end RegionSync
