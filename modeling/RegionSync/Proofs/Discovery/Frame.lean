import RegionSync.Discovery.Frame
import RegionSync.Proofs.Region.Path

/-!
The forms of a frame: its mark, the digest or the entries that it claims, and any number of zeros. A
frame is read from its forms and from nothing else, and what is written is one of them.
-/

namespace RegionSync

/-- The path has from one to 255 digits, so that a byte that is not zero counts them. -/
structure RegionPath.ByteSized (p : RegionPath) : Prop where
  pos : 1 ≤ p.depth
  le : p.depth ≤ 255
  octants : ∀ i ∈ p.digits, i.val ≤ 7

namespace Frame

open RegionPath (digitBytes ByteSized)

/-- The four bytes of a digest, the low one first. -/
def digestForm (digest : UInt32) : Bytes :=
  [digest.toUInt8, (digest >>> 8).toUInt8, (digest >>> 16).toUInt8, (digest >>> 24).toUInt8]

/-- An entry: how many digits its path has, the digits, and the digest. -/
def entryForm (entry : RegionPath × UInt32) : Bytes :=
  UInt8.ofNat entry.1.depth :: (digitBytes entry.1.digits ++ digestForm entry.2)

/-- The frame claims digests for paths that can be counted. -/
def Writable : Frame → Prop
  | whole _ => True
  | parts entries => ∀ entry ∈ entries, ByteSized entry.1

/-- The bytes are a form of the frame: its mark, what it claims, and any number of zeros. -/
def WrittenAs : Frame → Bytes → Prop
  | whole digest, bytes => ∃ zeros, bytes = 0x31 :: (digestForm digest ++ List.replicate zeros 0)
  | parts entries, bytes => (∀ entry ∈ entries, ByteSized entry.1) ∧
    ∃ zeros, bytes = 0x30 :: (entries.flatMap entryForm ++ List.replicate zeros 0)

theorem digestForm_eq (digest : UInt32) : digestForm digest = LowFirst.bytes 4 digest.toNat := by
  have hbyte : ∀ (d : UInt32) (n : Nat), d.toNat = n → d.toUInt8 = UInt8.ofNat (n % 256) := by
    rintro d _ rfl
    rw [← UInt8.toNat_inj]
    simp
  have hshift : ∀ k : UInt32, k.toNat < 32 → (digest >>> k).toNat = digest.toNat / 2 ^ k.toNat := by
    intro k hk
    rw [UInt32.toNat_shiftRight, Nat.mod_eq_of_lt hk, Nat.shiftRight_eq_div_pow]
  simp only [digestForm, LowFirst.bytes, Nat.div_div_eq_div_mul, List.cons.injEq, and_true]
  exact ⟨hbyte _ _ rfl, hbyte _ _ (hshift 8 (by decide)), hbyte _ _ (hshift 16 (by decide)),
    hbyte _ _ (hshift 24 (by decide))⟩

@[simp] theorem length_digestForm (digest : UInt32) : (digestForm digest).length = 4 := rfl

/-- Four bytes are read as the digest that they are the form of. -/
theorem digestOf_eq_iff {bytes : Bytes} (h : bytes.length = 4) {digest : UInt32} :
    digestOf bytes = digest ↔ bytes = digestForm digest := by
  have hlt : LowFirst.number bytes < 2 ^ 32 := by
    have hnumber := LowFirst.number_lt bytes
    rwa [h] at hnumber
  rw [digestForm_eq, digestOf]
  constructor
  · rintro rfl
    have hback := LowFirst.bytes_number bytes
    rw [h] at hback
    rw [UInt32.toNat_ofNat', Nat.mod_eq_of_lt hlt, hback]
  · rintro rfl
    have hdigest : digest.toNat < 256 ^ 4 := digest.toNat_lt
    rw [LowFirst.number_bytes, Nat.mod_eq_of_lt hdigest, UInt32.ofNat_toNat]

theorem allZero_iff {bytes : Bytes} :
    allZero bytes = true ↔ ∃ zeros, bytes = List.replicate zeros 0 := by
  rw [allZero, List.all_eq_true]
  constructor
  · intro h
    exact ⟨bytes.length, List.eq_replicate_of_mem fun b hb => eq_of_beq (h b hb)⟩
  · rintro ⟨zeros, rfl⟩ b hb
    rw [List.eq_of_mem_replicate hb, beq_self_eq_true]

theorem decodeEntries_zeros (zeros : Nat) : decodeEntries (List.replicate zeros 0) = .ok [] := by
  cases zeros with
  | zero => rw [List.replicate_zero, decodeEntries]
  | succ zeros =>
      rw [List.replicate_succ, decodeEntries, if_pos rfl, if_pos (allZero_iff.2 ⟨zeros, rfl⟩)]

/-- An entry is read off, whatever follows it. -/
theorem decodeEntries_entryForm {path : RegionPath} (h : ByteSized path) (digest : UInt32)
    (rest : Bytes) : decodeEntries (entryForm (path, digest) ++ rest) =
      (decodeEntries rest).map ((path, digest) :: ·) := by
  have hcount : (UInt8.ofNat path.depth).toNat = path.depth := by
    rw [UInt8.toNat_ofNat', Nat.mod_eq_of_lt (by have := h.le; omega)]
  have hne : UInt8.ofNat path.depth ≠ 0 := by
    intro hzero
    rw [hzero] at hcount
    exact absurd hcount (Nat.ne_of_lt h.pos)
  have hdigits : (digitBytes path.digits).length = path.depth := RegionPath.length_digitBytes _
  have htail : digitBytes path.digits ++ digestForm digest ++ rest =
      digitBytes path.digits ++ (digestForm digest ++ rest) := List.append_assoc ..
  have hdrop : (digitBytes path.digits ++ digestForm digest ++ rest).drop (path.depth + 4) = rest :=
    List.drop_left' (by rw [List.length_append, hdigits, length_digestForm])
  rw [entryForm, List.cons_append, decodeEntries, if_neg hne]
  dsimp only
  rw [hcount, hdrop, htail, List.take_left' hdigits, List.drop_left' hdigits,
    List.take_left' (length_digestForm digest), RegionPath.ofBytes_eq_ok_iff.2 rfl,
    (digestOf_eq_iff rfl).2 rfl, if_neg (by simp [hdigits])]
  cases decodeEntries rest <;> rfl

/-- What is read as an entry is the form of it, with the rest behind. -/
theorem entryForm_of_ofBytes {length : UInt8} {tail : Bytes} {path : RegionPath}
    (hlength : length ≠ 0) (hlong : ¬ tail.length < length.toNat + 4)
    (hpath : RegionPath.ofBytes (tail.take length.toNat) = .ok path) :
    ByteSized path ∧ length :: tail =
      entryForm (path, digestOf ((tail.drop length.toNat).take 4)) ++
        tail.drop (length.toNat + 4) := by
  have hdigits := RegionPath.ofBytes_eq_ok_iff.1 hpath
  have hdepth : path.depth = length.toNat := by
    have hcount := congrArg List.length hdigits
    rw [List.length_take_of_le (by omega), RegionPath.length_digitBytes] at hcount
    exact hcount.symm
  have hlast : ((tail.drop length.toNat).take 4).length = 4 := by
    rw [List.length_take, List.length_drop]
    omega
  have hdigest := (digestOf_eq_iff hlast).1 rfl
  constructor
  · refine ⟨?_, ?_, fun i _ => by omega⟩
    · rw [hdepth]
      exact Nat.pos_of_ne_zero fun hzero => hlength (UInt8.toNat_inj.1 hzero)
    · rw [hdepth]
      exact Nat.le_of_lt_succ length.toNat_lt
  · rw [entryForm, ← hdigest, ← hdigits, hdepth, UInt8.ofNat_toNat, List.cons_append,
      List.append_assoc, ← List.drop_drop, List.take_append_drop, List.take_append_drop]

/-- Entries are read from their forms with zeros behind, and from nothing else. -/
theorem decodeEntries_eq_ok_iff {bytes : Bytes} {entries : List (RegionPath × UInt32)} :
    decodeEntries bytes = .ok entries ↔ (∀ entry ∈ entries, ByteSized entry.1) ∧
      ∃ zeros, bytes = entries.flatMap entryForm ++ List.replicate zeros 0 := by
  constructor
  · intro h
    fun_induction decodeEntries bytes generalizing entries with
    | case1 =>
        cases h
        exact ⟨List.forall_mem_nil _, 0, rfl⟩
    | case2 tail hzero =>
        cases h
        obtain ⟨zeros, rfl⟩ := allZero_iff.1 hzero
        exact ⟨List.forall_mem_nil _, zeros + 1, rfl⟩
    | case3 => cases h
    | case4 => cases h
    | case5 => cases h
    | case6 => cases h
    | case7 length tail hlength n hlong path hpath rest hread =>
        rename_i ih
        -- The zeros behind the form of the rest are the zeros behind that of all entries.
        obtain rfl := Except.ok.inj h
        obtain ⟨hsized, hform⟩ := entryForm_of_ofBytes hlength hlong hpath
        obtain ⟨hrest, zeros, hzeros⟩ := ih hread
        refine ⟨List.forall_mem_cons.2 ⟨hsized, hrest⟩, zeros, ?_⟩
        rw [hform, List.flatMap_cons, List.append_assoc, ← hzeros]
  · rintro ⟨hsized, zeros, rfl⟩
    induction entries with
    | nil => exact decodeEntries_zeros zeros
    | cons entry entries ih =>
        obtain ⟨hentry, hrest⟩ := List.forall_mem_cons.1 hsized
        rw [List.flatMap_cons, List.append_assoc, decodeEntries_entryForm hentry, ih hrest]
        rfl

theorem decode_wholeMark_eq_ok_iff {rest : Bytes} {f : Frame} :
    decode (wholeMark :: rest) = .ok f ↔
      ∃ digest zeros, f = whole digest ∧ rest = digestForm digest ++ List.replicate zeros 0 := by
  rw [decode, if_pos rfl]
  constructor
  · intro h
    split at h
    · cases h
    · next hlong =>
        split at h
        · next hzero =>
            obtain ⟨zeros, hzeros⟩ := allZero_iff.1 hzero
            have hlength : (rest.take 4).length = 4 := List.length_take_of_le (Nat.not_lt.1 hlong)
            refine ⟨_, zeros, (Except.ok.inj h).symm, ?_⟩
            rw [← (digestOf_eq_iff hlength).1 rfl, ← hzeros, List.take_append_drop]
        · cases h
  · rintro ⟨digest, zeros, rfl, rfl⟩
    have hlength := length_digestForm digest
    rw [List.drop_left' hlength, List.take_left' hlength, (digestOf_eq_iff hlength).2 rfl,
      if_neg (by simp), if_pos (allZero_iff.2 ⟨zeros, rfl⟩)]

theorem decode_partsMark_eq_ok_iff {rest : Bytes} {f : Frame} :
    decode (partsMark :: rest) = .ok f ↔
      ∃ entries, f = parts entries ∧ decodeEntries rest = .ok entries := by
  have hne : partsMark ≠ wholeMark := by decide
  rw [decode, if_neg hne, if_pos rfl]
  cases decodeEntries rest with
  | error reason => simp [Except.map]
  | ok entries => simp [Except.map, eq_comm]

/-- A frame is read from its forms and from nothing else. -/
theorem decode_eq_ok_iff {bytes : Bytes} {f : Frame} :
    decode bytes = .ok f ↔ f.WrittenAs bytes := by
  cases bytes with
  | nil => cases f <;> simp [decode, WrittenAs]
  | cons mark rest =>
      by_cases hwhole : mark = wholeMark
      · subst hwhole
        rw [decode_wholeMark_eq_ok_iff]
        cases f <;> simp [WrittenAs, wholeMark]
      · by_cases hparts : mark = partsMark
        · subst hparts
          rw [decode_partsMark_eq_ok_iff]
          cases f <;> simp [WrittenAs, partsMark, decodeEntries_eq_ok_iff]
        · rw [decode, if_neg hwhole, if_neg hparts]
          unfold wholeMark at hwhole
          unfold partsMark at hparts
          cases f <;> simp [WrittenAs, hwhole, hparts]

theorem encodeEntry_eq (entry : RegionPath × UInt32) : encodeEntry entry = entryForm entry := by
  rw [entryForm, digestForm_eq]
  rfl

theorem dvd_length_fill (bytes : Bytes) : 3 ∣ (fill bytes).length := by
  simp only [fill, List.length_append, List.length_replicate]
  omega

theorem dvd_length_encode (f : Frame) : 3 ∣ f.encode.length := by
  cases f <;> exact dvd_length_fill _

theorem exists_fill (bytes : Bytes) : ∃ zeros, fill bytes = bytes ++ List.replicate zeros 0 :=
  ⟨_, rfl⟩

/-- A writable frame is written in one of its forms. -/
theorem writtenAs_encode {f : Frame} (h : f.Writable) : f.WrittenAs f.encode := by
  cases f with
  | whole digest =>
      obtain ⟨zeros, hfill⟩ := exists_fill (wholeMark :: LowFirst.bytes 4 digest.toNat)
      refine ⟨zeros, ?_⟩
      rw [encode, hfill, digestForm_eq]
      rfl
  | parts entries =>
      obtain ⟨zeros, hfill⟩ := exists_fill (partsMark :: entries.flatMap encodeEntry)
      refine ⟨h, zeros, ?_⟩
      rw [encode, hfill, funext encodeEntry_eq]
      rfl

theorem decode_encode {f : Frame} (h : f.Writable) : decode f.encode = .ok f :=
  decode_eq_ok_iff.2 (writtenAs_encode h)

/-- Reading accepts the forms of frames and nothing else. A frame whose paths can be counted is
written in one of its forms, and what is written falls into triples. -/
theorem decode_iff_form (bytes : Bytes) :
    (∀ f, decode bytes = .ok f ↔ f.WrittenAs bytes) ∧
      ((∀ f, ¬ WrittenAs f bytes) → ∃ reason, decode bytes = .error reason) ∧
      (∀ f, Writable f → decode f.encode = .ok f) ∧
      ∀ f, 3 ∣ (encode f).length := by
  refine ⟨fun f => decode_eq_ok_iff, fun hnone => ?_, fun f => decode_encode, dvd_length_encode⟩
  cases hread : decode bytes with
  | error reason => exact ⟨reason, rfl⟩
  | ok f => exact absurd (decode_eq_ok_iff.1 hread) (hnone f)

/-- Two siblings, one with the digest zero: no zero of an entry is taken for the end of them. -/
theorem decode_iff_form_siblings :
    let siblings : Frame := .parts [(⟨[0]⟩, 0), (⟨[1]⟩, 256)]
    siblings.Writable ∧
      siblings.WrittenAs [0x30, 1, 0, 0, 0, 0, 0, 1, 1, 0, 1, 0, 0, 0, 0, 0] ∧
      decode [0x30, 1, 0, 0, 0, 0, 0, 1, 1, 0, 1, 0, 0, 0, 0, 0] = .ok siblings ∧
      decode siblings.encode = .ok siblings := by
  intro siblings
  have hsized : siblings.Writable := by
    refine List.forall_mem_cons.2 ⟨⟨by decide, by decide, by decide⟩, ?_⟩
    exact List.forall_mem_singleton.2 ⟨by decide, by decide, by decide⟩
  have hform : siblings.WrittenAs [0x30, 1, 0, 0, 0, 0, 0, 1, 1, 0, 1, 0, 0, 0, 0, 0] :=
    ⟨hsized, 3, by decide⟩
  obtain ⟨hread, -, hwritten, -⟩ :=
    decode_iff_form [0x30, 1, 0, 0, 0, 0, 0, 1, 1, 0, 1, 0, 0, 0, 0, 0]
  exact ⟨hsized, hform, (hread siblings).2 hform, hwritten siblings hsized⟩

end Frame

end RegionSync
