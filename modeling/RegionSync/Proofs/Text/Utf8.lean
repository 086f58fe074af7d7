import RegionSync.Text.Utf8

/-!
Reading the UTF-8 form of a text gives the text back, and a text is read from no other bytes. The form
of a character begins with a byte that tells how many follow, so characters are read off one after the
other. A byte of the lower half is a character of its own wherever it stands, so bytes can be cut there
before they are read.
-/

namespace RegionSync.Text

theorem toNat_ofNat_of_lt {n : Nat} (h : n < 256) : (UInt8.ofNat n).toNat = n := by
  rw [UInt8.toNat_ofNat']
  exact Nat.mod_eq_of_lt h

theorem continuation?_ofNat {n : Nat} (h : n < 64) :
    continuation? (UInt8.ofNat (n + 0x80)) = some n := by
  rw [continuation?, toNat_ofNat_of_lt (by omega), if_pos (by omega), Nat.add_sub_cancel]

theorem scalar?_toNat (c : Char) : scalar? c.utf8Size c.toNat = some c := by
  have hvalid : c.toNat.isValidChar := c.valid
  rw [scalar?, if_pos hvalid]
  simp [Char.ofNat_toNat]

/-! Sequences of one to four bytes. -/

variable {v : Nat} {c : Char} {rest : Bytes}

theorem decodeNext?_one (c : Char) (h : c.toNat ≤ 0x7f) :
    decodeNext? (UInt8.ofNat c.toNat) rest = some (c, rest) := by
  unfold decodeNext?
  rw [toNat_ofNat_of_lt (by omega), if_pos (by omega), Char.ofNat_toNat]

theorem decodeNext?_two (h : v ≤ 0x7ff) (hscalar : scalar? 2 v = some c) :
    decodeNext? (UInt8.ofNat (v / 64 % 32 + 0xc0)) (UInt8.ofNat (v % 64 + 0x80) :: rest) =
      some (c, rest) := by
  have hvalue : (v / 64 % 32 + 0xc0 - 0xC0) * 64 + v % 64 = v := by omega
  unfold decodeNext?
  rw [toNat_ofNat_of_lt (by omega), if_neg (by omega), if_neg (by omega), if_pos (by omega)]
  simp only [continuation?_ofNat (Nat.mod_lt v (by decide : 0 < 64)), Option.bind_eq_bind,
    Option.bind_some, hvalue, hscalar, Option.pure_def]

theorem decodeNext?_three (h : v ≤ 0xffff) (hscalar : scalar? 3 v = some c) :
    decodeNext? (UInt8.ofNat (v / 4096 % 16 + 0xe0)) (UInt8.ofNat (v / 64 % 64 + 0x80) ::
      UInt8.ofNat (v % 64 + 0x80) :: rest) = some (c, rest) := by
  have hvalue : ((v / 4096 % 16 + 0xe0 - 0xE0) * 64 + v / 64 % 64) * 64 + v % 64 = v := by omega
  unfold decodeNext?
  rw [toNat_ofNat_of_lt (by omega), if_neg (by omega), if_neg (by omega), if_neg (by omega),
    if_pos (by omega)]
  simp only [continuation?_ofNat (Nat.mod_lt _ (by decide : 0 < 64)), Option.bind_eq_bind,
    Option.bind_some, hvalue, hscalar, Option.pure_def]

theorem decodeNext?_four (h : v < 0x110000) (hscalar : scalar? 4 v = some c) :
    decodeNext? (UInt8.ofNat (v / 262144 % 8 + 0xf0)) (UInt8.ofNat (v / 4096 % 64 + 0x80) ::
      UInt8.ofNat (v / 64 % 64 + 0x80) :: UInt8.ofNat (v % 64 + 0x80) :: rest) =
        some (c, rest) := by
  have hvalue : (((v / 262144 % 8 + 0xf0 - 0xF0) * 64 + v / 4096 % 64) * 64 + v / 64 % 64) * 64 +
      v % 64 = v := by omega
  unfold decodeNext?
  rw [toNat_ofNat_of_lt (by omega), if_neg (by omega), if_neg (by omega), if_neg (by omega),
    if_neg (by omega), if_pos (by omega)]
  simp only [continuation?_ofNat (Nat.mod_lt _ (by decide : 0 < 64)), Option.bind_eq_bind,
    Option.bind_some, hvalue, hscalar, Option.pure_def]

/-- The first character is read off, whatever follows its bytes. -/
theorem decodeNext?_encode (c : Char) (rest : Bytes) :
    ∃ a tail, String.utf8EncodeChar c ++ rest = a :: tail ∧ decodeNext? a tail = some (c, rest) := by
  have hlt : c.toNat < 0x110000 := by
    rcases c.valid with h | h
    · exact Nat.lt_trans h (by decide)
    · exact h.2
  have hscalar := scalar?_toNat c
  have hv : c.val.toNat = c.toNat := rfl
  unfold String.utf8EncodeChar
  simp only [hv]
  by_cases h1 : c.toNat ≤ 0x7f
  · rw [if_pos h1]
    exact ⟨_, _, List.cons_append, decodeNext?_one c h1⟩
  rw [if_neg h1]
  by_cases h2 : c.toNat ≤ 0x7ff
  · have hsize : c.utf8Size = 2 := by
      rw [Char.utf8Size, if_neg (by exact h1), if_pos (by exact h2)]
    rw [if_pos h2]
    exact ⟨_, _, List.cons_append, decodeNext?_two h2 (hsize ▸ hscalar)⟩
  rw [if_neg h2]
  by_cases h3 : c.toNat ≤ 0xffff
  · have hsize : c.utf8Size = 3 := by
      rw [Char.utf8Size, if_neg (by exact h1), if_neg (by exact h2), if_pos (by exact h3)]
    rw [if_pos h3]
    exact ⟨_, _, List.cons_append, decodeNext?_three h3 (hsize ▸ hscalar)⟩
  · have hsize : c.utf8Size = 4 := by
      rw [Char.utf8Size, if_neg (by exact h1), if_neg (by exact h2), if_neg (by exact h3)]
    rw [if_neg h3]
    exact ⟨_, _, List.cons_append, decodeNext?_four hlt (hsize ▸ hscalar)⟩

theorem decode?_of_decodeNext? {a : UInt8} {tail : Bytes}
    (h : decodeNext? a tail = some (c, rest)) :
    decode? (a :: tail) = (decode? rest).map (c :: ·) := by
  rw [decode?]
  split
  · next hnone =>
      rw [h] at hnone
      cases hnone
  · next d other hsome =>
      rw [h] at hsome
      cases hsome
      rfl

theorem encode_cons (c : Char) (cs : List Char) :
    encode (c :: cs) = String.utf8EncodeChar c ++ encode cs :=
  List.flatMap_cons

theorem encode_append (xs ys : List Char) : encode (xs ++ ys) = encode xs ++ encode ys :=
  List.flatMap_append

/-- Reading the UTF-8 form of a text gives the text. -/
theorem decode?_encode (cs : List Char) : decode? (encode cs) = some cs := by
  induction cs with
  | nil =>
      rw [show encode [] = [] from rfl, decode?]
  | cons c cs ih =>
      obtain ⟨a, tail, hbytes, hnext⟩ := decodeNext?_encode c (encode cs)
      rw [encode_cons, hbytes, decode?_of_decodeNext? hnext, ih]
      rfl

/-- Where the form of a text begins with that of another, so does the text itself. -/
theorem exists_of_encode_eq_append {xs ys : List Char} {bytes : Bytes}
    (h : encode xs = encode ys ++ bytes) : ∃ zs, xs = ys ++ zs ∧ encode zs = bytes := by
  induction ys generalizing xs with
  | nil => exact ⟨xs, rfl, h⟩
  | cons y ys ih =>
      obtain ⟨a, tail, hbytes, hnext⟩ := decodeNext?_encode y (encode ys ++ bytes)
      rw [encode_cons, List.append_assoc, hbytes] at h
      cases xs with
      | nil => cases h
      | cons x xs =>
          -- Both texts begin with the character that is read off first.
          obtain ⟨b, other, hother, hfirst⟩ := decodeNext?_encode x (encode xs)
          rw [encode_cons, hother] at h
          obtain ⟨rfl, rfl⟩ := List.cons.inj h
          rw [hfirst, Option.some.injEq, Prod.mk.injEq] at hnext
          obtain ⟨rfl, hrest⟩ := hnext
          obtain ⟨zs, rfl, hzs⟩ := ih hrest
          exact ⟨zs, rfl, hzs⟩

/-- The form of a text starts with that of another one exactly if the text does. -/
theorem encode_prefix_iff {xs ys : List Char} : encode ys <+: encode xs ↔ ys <+: xs := by
  constructor
  · rintro ⟨rest, h⟩
    obtain ⟨zs, rfl, -⟩ := exists_of_encode_eq_append h.symm
    exact ⟨zs, rfl⟩
  · rintro ⟨zs, rfl⟩
    exact ⟨encode zs, (encode_append ys zs).symm⟩

/-! What a character is read from is its form. -/

variable {a b : UInt8} {bytes tail before after : Bytes} {cs : List Char} {sep : Char}

theorem toNat_ofNat_of_valid (h : v.isValidChar) : (Char.ofNat v).toNat = v := by
  rw [Char.ofNat, dif_pos h]
  rfl

theorem of_continuation? (h : continuation? b = some v) : b = UInt8.ofNat (v + 0x80) ∧ v < 64 := by
  unfold continuation? at h
  split at h
  · have hv := Option.some.inj h
    refine ⟨?_, by omega⟩
    rw [← hv, Nat.sub_add_cancel (by omega), UInt8.ofNat_toNat]
  · cases h

theorem of_scalar? {size : Nat} (h : scalar? size v = some c) : c.val.toNat = v ∧ c.utf8Size = size := by
  unfold scalar? at h
  split at h
  · next hvalid =>
      dsimp only at h
      split at h
      · next hsize =>
          cases h
          exact ⟨toNat_ofNat_of_valid hvalid, hsize⟩
      · cases h
  · cases h

theorem form_one (h : a.toNat < 0x80) : String.utf8EncodeChar (Char.ofNat a.toNat) = [a] := by
  have hchar : (Char.ofNat a.toNat).val.toNat = a.toNat := toNat_ofNat_of_valid (Or.inl (by omega))
  unfold String.utf8EncodeChar
  simp only [hchar]
  rw [if_pos (by omega), UInt8.ofNat_toNat]

theorem form_two {u : Nat} (ha : a.toNat = u + 0xC0) (hv : v < 64)
    (h : scalar? 2 (u * 64 + v) = some c) :
    String.utf8EncodeChar c = [a, UInt8.ofNat (v + 0x80)] := by
  obtain ⟨hchar, hsize⟩ := of_scalar? h
  rw [Char.utf8Size_eq_two_iff, UInt32.lt_iff_toNat_lt, UInt32.le_iff_toNat_le] at hsize
  simp only [UInt32.reduceToNat, hchar] at hsize
  unfold String.utf8EncodeChar
  simp only [hchar]
  rw [if_neg (by omega), if_pos (by omega), show (u * 64 + v) / 64 % 32 = u by omega,
    show (u * 64 + v) % 64 = v by omega, ← ha, UInt8.ofNat_toNat]

theorem form_three {u t : Nat} (ha : a.toNat = u + 0xE0) (ht : t < 64) (hv : v < 64)
    (h : scalar? 3 ((u * 64 + t) * 64 + v) = some c) :
    String.utf8EncodeChar c = [a, UInt8.ofNat (t + 0x80), UInt8.ofNat (v + 0x80)] := by
  obtain ⟨hchar, hsize⟩ := of_scalar? h
  rw [Char.utf8Size_eq_three_iff, UInt32.lt_iff_toNat_lt, UInt32.le_iff_toNat_le] at hsize
  simp only [UInt32.reduceToNat, hchar] at hsize
  unfold String.utf8EncodeChar
  simp only [hchar]
  rw [if_neg (by omega), if_neg (by omega), if_pos (by omega),
    show ((u * 64 + t) * 64 + v) / 4096 % 16 = u by omega,
    show ((u * 64 + t) * 64 + v) / 64 % 64 = t by omega,
    show ((u * 64 + t) * 64 + v) % 64 = v by omega, ← ha, UInt8.ofNat_toNat]

theorem form_four {u s t : Nat} (ha : a.toNat = u + 0xF0) (hu : u < 8) (hs : s < 64) (ht : t < 64)
    (hv : v < 64) (h : scalar? 4 (((u * 64 + s) * 64 + t) * 64 + v) = some c) :
    String.utf8EncodeChar c =
      [a, UInt8.ofNat (s + 0x80), UInt8.ofNat (t + 0x80), UInt8.ofNat (v + 0x80)] := by
  obtain ⟨hchar, hsize⟩ := of_scalar? h
  rw [Char.utf8Size_eq_four_iff, UInt32.lt_iff_toNat_lt] at hsize
  simp only [UInt32.reduceToNat, hchar] at hsize
  unfold String.utf8EncodeChar
  simp only [hchar]
  rw [if_neg (by omega), if_neg (by omega), if_neg (by omega),
    show (((u * 64 + s) * 64 + t) * 64 + v) / 262144 % 8 = u by omega,
    show (((u * 64 + s) * 64 + t) * 64 + v) / 4096 % 64 = s by omega,
    show (((u * 64 + s) * 64 + t) * 64 + v) / 64 % 64 = t by omega,
    show (((u * 64 + s) * 64 + t) * 64 + v) % 64 = v by omega, ← ha, UInt8.ofNat_toNat]

theorem form_of_decodeNext? (h : decodeNext? a tail = some (c, rest)) :
    a :: tail = String.utf8EncodeChar c ++ rest := by
  unfold decodeNext? at h
  simp only [Option.pure_def, Option.bind_eq_bind] at h
  split at h
  · next hone =>
      obtain ⟨rfl, rfl⟩ := Prod.mk.inj (Option.some.inj h)
      rw [form_one hone]
      rfl
  split at h
  · cases h
  split at h
  · split at h
    · simp only [Option.bind_eq_some_iff, Option.some.injEq, Prod.mk.injEq] at h
      obtain ⟨v, hb, d, hd, rfl, rfl⟩ := h
      obtain ⟨rfl, hv⟩ := of_continuation? hb
      rw [form_two (a := a) (by omega) hv hd]
      rfl
    · cases h
  split at h
  · split at h
    · simp only [Option.bind_eq_some_iff, Option.some.injEq, Prod.mk.injEq] at h
      obtain ⟨t, hb, v, hb', d, hd, rfl, rfl⟩ := h
      obtain ⟨rfl, ht⟩ := of_continuation? hb
      obtain ⟨rfl, hv⟩ := of_continuation? hb'
      rw [form_three (a := a) (by omega) ht hv hd]
      rfl
    · cases h
  split at h
  · split at h
    · simp only [Option.bind_eq_some_iff, Option.some.injEq, Prod.mk.injEq] at h
      obtain ⟨s, hb, t, hb', v, hb'', d, hd, rfl, rfl⟩ := h
      obtain ⟨rfl, hs⟩ := of_continuation? hb
      obtain ⟨rfl, ht⟩ := of_continuation? hb'
      obtain ⟨rfl, hv⟩ := of_continuation? hb''
      rw [form_four (a := a) (by omega) (by omega) hs ht hv hd]
      rfl
    · cases h
  · cases h

/-- A text is read from its UTF-8 form and from no other bytes. -/
theorem decode?_eq_some_iff : decode? bytes = some cs ↔ bytes = encode cs := by
  constructor
  · intro h
    fun_induction decode? bytes generalizing cs with
    | case1 =>
        cases h
        rfl
    | case2 a tail hnone => cases h
    | case3 a tail c rest hnext ih =>
        obtain ⟨ds, hds, rfl⟩ := Option.map_eq_some_iff.1 h
        rw [form_of_decodeNext? hnext, ih hds, encode_cons]
  · rintro rfl
    exact decode?_encode cs

/-! Cuts at a byte of the lower half. -/

theorem form_of_low (h : c.toNat < 0x80) : String.utf8EncodeChar c = [UInt8.ofNat c.toNat] := by
  have hchar : c.val.toNat ≤ 127 := Nat.le_of_lt_succ h
  unfold String.utf8EncodeChar
  exact if_pos hchar

theorem le_of_mem_form (h : ¬ c.toNat < 0x80) (hb : b ∈ String.utf8EncodeChar c) :
    0x80 ≤ b.toNat := by
  have hhigh : ∀ k, k < 256 → 0x80 ≤ k → b = UInt8.ofNat k → 0x80 ≤ b.toNat := by
    rintro k hk hle rfl
    rwa [toNat_ofNat_of_lt hk]
  have hchar : ¬ c.val.toNat ≤ 127 := fun hle => h (Nat.lt_succ_of_le hle)
  unfold String.utf8EncodeChar at hb
  dsimp only at hb
  rw [if_neg hchar] at hb
  split at hb
  · simp only [List.mem_cons, List.not_mem_nil, or_false] at hb
    rcases hb with hb | hb
    · exact hhigh _ (by omega) (by omega) hb
    · exact hhigh _ (by omega) (by omega) hb
  split at hb
  · simp only [List.mem_cons, List.not_mem_nil, or_false] at hb
    rcases hb with hb | hb | hb
    · exact hhigh _ (by omega) (by omega) hb
    · exact hhigh _ (by omega) (by omega) hb
    · exact hhigh _ (by omega) (by omega) hb
  · simp only [List.mem_cons, List.not_mem_nil, or_false] at hb
    rcases hb with hb | hb | hb | hb
    · exact hhigh _ (by omega) (by omega) hb
    · exact hhigh _ (by omega) (by omega) hb
    · exact hhigh _ (by omega) (by omega) hb
    · exact hhigh _ (by omega) (by omega) hb

/-- A byte of the lower half stands in the form of its own character only. -/
theorem eq_of_mem_form (hsep : sep.toNat < 0x80)
    (h : UInt8.ofNat sep.toNat ∈ String.utf8EncodeChar c) : c = sep := by
  have hbyte := toNat_ofNat_of_lt (n := sep.toNat) (by omega)
  by_cases hc : c.toNat < 0x80
  · rw [form_of_low hc, List.mem_singleton, ← UInt8.toNat_inj, hbyte,
      toNat_ofNat_of_lt (by omega)] at h
    exact Char.toNat_inj.1 h.symm
  · have := le_of_mem_form hc h
    omega

/-- Bytes that are cut at a byte of the lower half are those of a text that is cut at its character. -/
theorem encode_eq_append_cons_iff (hsep : sep.toNat < 0x80) :
    encode cs = before ++ UInt8.ofNat sep.toNat :: after ↔
      ∃ xs ys, cs = xs ++ sep :: ys ∧ encode xs = before ∧ encode ys = after := by
  constructor
  · intro h
    induction cs generalizing before with
    | nil => simp [encode] at h
    | cons c cs ih =>
        have hlater : ∀ middle, before = String.utf8EncodeChar c ++ middle →
            encode cs = middle ++ UInt8.ofNat sep.toNat :: after →
              ∃ xs ys, c :: cs = xs ++ sep :: ys ∧ encode xs = before ∧ encode ys = after := by
          rintro middle hbefore hrest
          obtain ⟨xs, ys, rfl, rfl, rfl⟩ := ih hrest
          exact ⟨c :: xs, ys, rfl, hbefore.symm, rfl⟩
        rw [encode_cons, List.append_eq_append_iff] at h
        rcases h with ⟨middle, hbefore, hrest⟩ | ⟨middle, hform, hrest⟩
        · exact hlater middle hbefore hrest
        · cases middle with
          | nil => exact hlater [] (by simpa using hform.symm) hrest.symm
          | cons d middle =>
              obtain ⟨rfl, hafter⟩ := List.cons.inj hrest
              obtain rfl : c = sep := eq_of_mem_form hsep (by simp [hform])
              rw [form_of_low hsep, List.singleton_eq_append_iff] at hform
              obtain ⟨rfl, hone⟩ | ⟨-, hnone⟩ := hform
              · obtain rfl : middle = [] := (List.cons.inj hone).2
                exact ⟨[], cs, rfl, rfl, hafter.symm⟩
              · cases hnone
  · rintro ⟨xs, ys, rfl, rfl, rfl⟩
    rw [encode_append, encode_cons, form_of_low hsep]
    rfl

/-- Bytes with a character's byte of the lower half between them are read as what each of both is read
as, with the character between. -/
theorem decode?_append_cons_iff (hsep : sep.toNat < 0x80) :
    decode? (before ++ UInt8.ofNat sep.toNat :: after) = some cs ↔
      ∃ xs ys, cs = xs ++ sep :: ys ∧ decode? before = some xs ∧ decode? after = some ys := by
  simp only [decode?_eq_some_iff, eq_comm (b := encode _), encode_eq_append_cons_iff hsep]

end RegionSync.Text
