import RegionSync.Bytes

/-!
The UTF-8 form of text. Decoding accepts well-formed sequences only: no overlong form, no surrogate,
nothing above the last code point, so a byte string has at most one text.
-/

namespace RegionSync

namespace Text

def encode (cs : List Char) : Bytes :=
  cs.flatMap String.utf8EncodeChar

def bytesOf (s : String) : Bytes :=
  encode s.toList

/-- The payload of a continuation byte. -/
def continuation? (b : UInt8) : Option Nat :=
  if 0x80 ≤ b.toNat ∧ b.toNat < 0xC0 then some (b.toNat - 0x80) else none

/-- The character of a sequence of `size` bytes, unless a shorter sequence would have done or the
value is not a scalar value. -/
def scalar? (size value : Nat) : Option Char :=
  if value.isValidChar then
    let c := Char.ofNat value
    if c.utf8Size = size then some c else none
  else none

/-- The first character and the bytes after it. -/
def decodeNext? (a : UInt8) (rest : Bytes) : Option (Char × Bytes) :=
  if a.toNat < 0x80 then some (Char.ofNat a.toNat, rest)
  else if a.toNat < 0xC0 then none
  else if a.toNat < 0xE0 then
    match rest with
    | b :: rest => do
      let b ← continuation? b
      let c ← scalar? 2 ((a.toNat - 0xC0) * 64 + b)
      return (c, rest)
    | _ => none
  else if a.toNat < 0xF0 then
    match rest with
    | b :: c :: rest => do
      let b ← continuation? b
      let c ← continuation? c
      let c ← scalar? 3 (((a.toNat - 0xE0) * 64 + b) * 64 + c)
      return (c, rest)
    | _ => none
  else if a.toNat < 0xF8 then
    match rest with
    | b :: c :: d :: rest => do
      let b ← continuation? b
      let c ← continuation? c
      let d ← continuation? d
      let c ← scalar? 4 ((((a.toNat - 0xF0) * 64 + b) * 64 + c) * 64 + d)
      return (c, rest)
    | _ => none
  else none

theorem length_of_decodeNext? {a : UInt8} {bytes rest : Bytes} {c : Char}
    (h : decodeNext? a bytes = some (c, rest)) : rest.length ≤ bytes.length := by
  unfold decodeNext? at h
  repeat' split at h
  all_goals
    simp only [reduceCtorEq, Option.some.injEq, Prod.mk.injEq, Option.pure_def,
      Option.bind_eq_bind, Option.bind_eq_some_iff] at h
  · obtain ⟨-, rfl⟩ := h
    exact Nat.le_refl _
  · obtain ⟨_, _, _, _, -, rfl⟩ := h
    simp
  · obtain ⟨_, _, _, _, _, _, -, rfl⟩ := h
    simp only [List.length_cons]; omega
  · obtain ⟨_, _, _, _, _, _, _, _, -, rfl⟩ := h
    simp only [List.length_cons]; omega

def decode? : Bytes → Option (List Char)
  | [] => some []
  | a :: bytes =>
    match _h : decodeNext? a bytes with
    | none => none
    | some (c, rest) => (decode? rest).map (c :: ·)
  termination_by bytes => bytes.length
  decreasing_by
    have := length_of_decodeNext? _h
    simp only [List.length_cons]; omega

def stringOf? (bytes : Bytes) : Option String :=
  (decode? bytes).map String.ofList

end Text

end RegionSync
