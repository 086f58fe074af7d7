import RegionSync.Proofs.Text.Split
import RegionSync.Region.Path

/-! A region path is read back from its text, and from the bytes of its digits. -/

namespace RegionSync.RegionPath

theorem readDigit?_digitText (i : OctantIndex) : readDigit? (digitText i) = some i := by
  have hall : ∀ i : OctantIndex, readDigit? (digitText i) = some i := by decide
  exact hall i

theorem digitText_ne_marker (i : OctantIndex) : digitText i ≠ ['-', '1'] := by
  have hall : ∀ i : OctantIndex, digitText i ≠ ['-', '1'] := by decide
  exact hall i

/-- A digit is written in one character, neither a slash nor a blank. -/
theorem of_mem_digitText {i : OctantIndex} {c : Char} (h : c ∈ digitText i) :
    c ≠ '/' ∧ c ≠ '\n' ∧ Text.isBlank c = false := by
  have hall : ∀ i : OctantIndex, (digitText i).all
      (fun c => c != '/' && c != '\n' && !Text.isBlank c) = true := by decide
  simpa [and_assoc] using List.all_eq_true.1 (hall i) c h

theorem digitText_ne_nil (i : OctantIndex) : digitText i ≠ [] :=
  Text.decimal_ne_nil _

theorem mapM_readDigit? (digits : List OctantIndex) :
    (digits.map digitText).mapM readDigit? = some digits := by
  induction digits with
  | nil => rfl
  | cons i digits ih =>
      rw [List.map_cons, List.mapM_cons, readDigit?_digitText, ih]
      rfl

theorem ofText?_intercalate (digits : List OctantIndex) :
    ofText? (List.intercalate ['/'] (digits.map digitText)) = some ⟨digits⟩ := by
  have hpieces : ∀ piece ∈ digits.map digitText, '/' ∉ piece ∧ piece ≠ [] := by
    intro piece hpiece
    obtain ⟨i, -, rfl⟩ := List.mem_map.1 hpiece
    exact ⟨fun hslash => (of_mem_digitText hslash).1 rfl, digitText_ne_nil i⟩
  have hmarker : withoutMarker (digits.map digitText) = digits.map digitText := by
    unfold withoutMarker
    split
    · next heq =>
        cases digits with
        | nil => cases heq
        | cons i digits => exact absurd (List.cons.inj heq).1 (digitText_ne_marker i)
    · rfl
  rw [ofText?, Text.segments_intercalate hpieces, hmarker, mapM_readDigit?]
  rfl

theorem ofText?_text (p : RegionPath) : ofText? p.text.toList = some p := by
  rw [text, String.toList_ofList, ofText?_intercalate]

theorem of_mem_text {p : RegionPath} {c : Char} (h : c ∈ p.text.toList) :
    Text.isBlank c = false := by
  rw [text, String.toList_ofList] at h
  obtain ⟨digits⟩ := p
  induction digits with
  | nil => cases h
  | cons i digits ih =>
      cases digits with
      | nil =>
          rw [List.map_singleton, List.intercalate_singleton] at h
          exact (of_mem_digitText h).2.2
      | cons j digits =>
          rw [List.map_cons, List.map_cons, List.intercalate_cons_cons, List.mem_append,
            List.mem_append, List.mem_singleton] at h
          rcases h with (h | rfl) | h
          · exact (of_mem_digitText h).2.2
          · decide
          · exact ih h

theorem text_eq_nil_iff {p : RegionPath} : p.text.toList = [] ↔ p.isRoot = true := by
  obtain ⟨digits⟩ := p
  rw [text, String.toList_ofList]
  cases digits with
  | nil => simp [isRoot]
  | cons i digits =>
      cases digits with
      | nil => simp [isRoot, digitText_ne_nil]
      | cons j digits => simp [isRoot]

/-! The digits of a path as bytes. -/

/-- The digits as bytes. -/
def digitBytes (digits : List OctantIndex) : List UInt8 :=
  digits.map fun i => UInt8.ofNat i.val

@[simp] theorem length_digitBytes (digits : List OctantIndex) :
    (digitBytes digits).length = digits.length :=
  List.length_map _

theorem index?_eq_some_iff {b : UInt8} {i : OctantIndex} :
    index? b = some i ↔ b = UInt8.ofNat i.val := by
  have hi : (UInt8.ofNat i.val).toNat = i.val := by
    rw [UInt8.toNat_ofNat', Nat.mod_eq_of_lt (by omega)]
  constructor
  · intro h
    unfold index? at h
    split at h
    · obtain rfl := Option.some.inj h
      rw [UInt8.ofNat_toNat]
    · cases h
  · rintro rfl
    rw [index?, dif_pos (by omega)]
    exact congrArg some (Fin.ext hi)

theorem filterMap_digitBytes (digits : List OctantIndex) :
    (digitBytes digits).filterMap index? = digits := by
  induction digits with
  | nil => rfl
  | cons i digits ih =>
      have hi : index? (UInt8.ofNat i.val) = some i := index?_eq_some_iff.2 rfl
      rw [digitBytes, List.map_cons, List.filterMap_cons_some hi]
      exact congrArg (i :: ·) ih

theorem digitBytes_filterMap {bytes : List UInt8} (h : ∀ b ∈ bytes, b < 8) :
    digitBytes (bytes.filterMap index?) = bytes := by
  induction bytes with
  | nil => rfl
  | cons b bytes ih =>
      have hb : b.toNat < 8 := h b List.mem_cons_self
      have hi : index? b = some ⟨b.toNat, hb⟩ := dif_pos hb
      rw [List.filterMap_cons_some hi, digitBytes, List.map_cons, UInt8.ofNat_toNat]
      exact congrArg (b :: ·) (ih fun c hc => h c (List.mem_cons_of_mem _ hc))

/-- A path is read from the bytes of its digits, and from no others. -/
theorem ofBytes_eq_ok_iff {bytes : List UInt8} {p : RegionPath} :
    ofBytes bytes = .ok p ↔ bytes = digitBytes p.digits := by
  have hlow : ∀ i : OctantIndex, ¬ decide (8 ≤ UInt8.ofNat i.val) = true := by decide
  constructor
  · intro h
    unfold ofBytes at h
    split at h
    · cases h
    · next hnone =>
        obtain rfl := Except.ok.inj h
        refine (digitBytes_filterMap fun b hb => ?_).symm
        have hnot := List.find?_eq_none.1 hnone b hb
        rwa [decide_eq_true_eq, UInt8.not_le] at hnot
  · rintro rfl
    have hnone : (digitBytes p.digits).find? (8 ≤ ·) = none := by
      refine List.find?_eq_none.2 fun b hb => ?_
      obtain ⟨i, -, rfl⟩ := List.mem_map.1 hb
      exact hlow i
    rw [ofBytes, hnone]
    show Except.ok (⟨(digitBytes p.digits).filterMap index?⟩ : RegionPath) = .ok p
    rw [filterMap_digitBytes]

end RegionSync.RegionPath
