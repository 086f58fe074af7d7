import Mathlib.Data.List.Basic
import RegionSync.Position.Payload
import RegionSync.Proofs.Binary.Decimal
import RegionSync.Proofs.Text.Split
import RegionSync.Proofs.Text.Utf8

/-!
Bodies of position answers are read back. No number's text holds a comma or a blank, and none starts
like a reset, so what a body starts with tells a position from a reset.
-/

namespace RegionSync

namespace Text

theorem isBlank_of_isDigit {c : Char} (h : c.isDigit = true) : isBlank c = false := by
  rw [Char.isDigit_iff_toNat] at h
  have hlow : 48 ≤ c.toNat := h.1
  have hhigh : c.toNat ≤ 57 := h.2
  simp only [isBlank, Bool.or_eq_false_iff, decide_eq_false_iff_not, beq_eq_false_iff_ne]
  omega

theorem trim_eq_self {cs : List Char} (h : ∀ c ∈ cs, isBlank c = false) : trim cs = cs := by
  have hkept : ∀ {ds : List Char}, (∀ c ∈ ds, isBlank c = false) → ds.dropWhile isBlank = ds := by
    intro ds hds
    cases ds with
    | nil => rfl
    | cons d ds => rw [List.dropWhile_cons_of_neg (by simp [hds d List.mem_cons_self])]
  have hback : ∀ c ∈ cs.reverse, isBlank c = false := fun c hc => h c (List.mem_reverse.1 hc)
  rw [trim, hkept h, hkept hback, List.reverse_reverse]

end Text

namespace Binary

variable {w : Width}

theorem of_mem_positionalText {c : Char} {n : Nat} {j : Int} (h : c ∈ positionalText false n j) :
    c.isDigit = true ∨ c = '.' := by
  unfold positionalText at h
  dsimp only at h
  split at h
  · simp only [Bool.false_eq_true, ↓reduceIte, List.append_nil, List.mem_append] at h
    rcases h with h | h
    · exact Or.inl (Text.isDigit_of_mem_decimal h)
    · exact Or.inl (isDigit_of_mem_zeros h)
  · split at h
    · rw [List.mem_append, List.mem_cons] at h
      rcases h with h | rfl | h
      · exact Or.inl (Text.isDigit_of_mem_decimal (List.mem_of_mem_take h))
      · exact Or.inr rfl
      · exact Or.inl (Text.isDigit_of_mem_decimal (List.mem_of_mem_drop h))
    · rw [List.mem_append, List.mem_append, List.mem_cons, List.mem_singleton] at h
      rcases h with ((rfl | rfl) | h) | h
      · exact Or.inl rfl
      · exact Or.inr rfl
      · exact Or.inl (isDigit_of_mem_zeros h)
      · exact Or.inl (Text.isDigit_of_mem_decimal h)

/-- The characters that numbers are written with. -/
theorem of_mem_text {x : Binary w} {c : Char} (h : c ∈ text .plain x) :
    c.isDigit = true ∨ c ∈ ['.', '-', 'N', 'a', 'i', 'n', 'f'] := by
  have hdigits : ∀ {n : Nat} {j : Int}, c ∈ positionalText false n j →
      c.isDigit = true ∨ c ∈ ['.', '-', 'N', 'a', 'i', 'n', 'f'] := by
    intro n j hc
    rcases of_mem_positionalText hc with hdigit | rfl
    · exact Or.inl hdigit
    · exact Or.inr (by decide)
  have hsign : ∀ {s : Bool}, c ∈ (if s then ['-'] else []) →
      c.isDigit = true ∨ c ∈ ['.', '-', 'N', 'a', 'i', 'n', 'f'] := by
    intro s hc
    cases s with
    | false => cases hc
    | true =>
        rw [List.mem_singleton.1 hc]
        exact Or.inr (by decide)
  cases x with
  | nan =>
      simp only [text, List.mem_cons] at h
      refine Or.inr ?_
      rcases h with rfl | rfl | rfl | h
      · decide
      · decide
      · decide
      · cases h
  | infinite s =>
      rcases List.mem_append.1 h with h | h
      · exact hsign h
      · refine Or.inr ?_
        simp only [List.mem_cons] at h ⊢
        tauto
  | finite s n hfits =>
      unfold text at h
      dsimp only [Style.plain] at h
      split at h
      · exact (List.mem_append.1 h).elim hsign hdigits
      · exact (List.mem_append.1 h).elim hsign hdigits

/-- Neither a comma nor a blank stands in a number. -/
theorem plain_of_mem_text {x : Binary w} {c : Char} (h : c ∈ text .plain x) :
    c ≠ ',' ∧ c ≠ 'r' ∧ Text.isBlank c = false := by
  rcases of_mem_text h with hdigit | hother
  · refine ⟨?_, ?_, Text.isBlank_of_isDigit hdigit⟩
    · rintro rfl
      exact absurd hdigit (by decide)
    · rintro rfl
      exact absurd hdigit (by decide)
  · have hall : ['.', '-', 'N', 'a', 'i', 'n', 'f'].all
        (fun d => d != ',' && d != 'r' && !Text.isBlank d) = true := by decide
    simpa [and_assoc] using List.all_eq_true.1 hall c hother

end Binary

namespace Payload

theorem split_coordinates (p : Point) :
    Text.split ',' (textChars (.position p)) = p.coordinates.map (Binary.text .plain) := by
  refine Text.split_intercalate (by simp [Point.coordinates]) ?_
  intro piece hpiece
  obtain ⟨x, -, rfl⟩ := List.mem_map.1 hpiece
  exact fun hmem => (Binary.plain_of_mem_text hmem).1 rfl

theorem readPosition?_textChars (p : Point) :
    readPosition? (textChars (.position p)) = some (.position p) := by
  have hcoordinate : ∀ x : Single,
      Binary.read? (Text.trim (Binary.text .plain x)) = some x := by
    intro x
    rw [Text.trim_eq_self fun c hc => (Binary.plain_of_mem_text hc).2.2, Binary.read?_text]
  simp [readPosition?, split_coordinates, Point.coordinates, hcoordinate]

/-- A point's text does not start like a reset. -/
theorem isPrefixOf?_position (p : Point) :
    resetMark.isPrefixOf? (textChars (.position p)) = none := by
  have hfree : 'r' ∉ textChars (.position p) := by
    have hcoordinate : ∀ x : Single, 'r' ∉ Binary.text .plain x :=
      fun x hmem => (Binary.plain_of_mem_text hmem).2.1 rfl
    simp [textChars, Point.coordinates, List.intercalate_cons_cons, hcoordinate]
  have hmark : resetMark = 'r' :: ['e', 's', 'e', 't', ':'] := rfl
  rw [hmark]
  cases hchars : textChars (.position p) with
  | nil => rfl
  | cons c cs =>
      have hc : 'r' ≠ c := fun heq => hfree (by rw [hchars, heq]; exact List.mem_cons_self)
      exact Text.isPrefixOf?_of_ne hc _ cs

theorem ofText?_textChars (p : Payload) : ofText? p.textChars = some p := by
  cases p with
  | position p => rw [ofText?, isPrefixOf?_position, readPosition?_textChars]
  | reset s reason =>
      have hcut : Text.cutFirst? ':' (Text.decimal s.toNat ++ ':' :: reason.toList) =
          some (Text.decimal s.toNat, reason.toList) := by
        refine Text.cutFirst?_eq_some_iff.2 ⟨rfl, fun hmem => ?_⟩
        exact absurd (Text.isDigit_of_mem_decimal hmem) (by decide)
      rw [ofText?, textChars, List.append_assoc, Text.isPrefixOf?_append]
      simp only [readReset?, hcut, Option.getD_some, Text.readUInt32?_decimal, Option.map_some,
        String.ofList_toList]

/-- Reading the body of an answer gives the payload that was written. -/
theorem ofBytes_bytes (p : Payload) : ofBytes p.bytes = .ok p := by
  rw [ofBytes, bytes, Text.decode?_encode]
  dsimp only
  rw [ofText?_textChars]

/-! What a body starts with. -/

variable {p : Payload} {cs : List Char}

theorem readReset?_eq_some (h : readReset? cs = some p) : ∃ s reason, p = .reset s reason := by
  obtain ⟨s, -, rfl⟩ := Option.map_eq_some_iff.1 h
  exact ⟨s, _, rfl⟩

theorem readPosition?_eq_some (h : readPosition? cs = some p) : ∃ q, p = .position q := by
  unfold readPosition? at h
  split at h
  · next x y z _ => exact ⟨⟨x, y, z⟩, (Option.some.inj h).symm⟩
  · cases h

/-- Text is read as a position exactly if it does not start with the mark of a reset. -/
theorem isPosition_iff_of_ofText? (h : ofText? cs = some p) :
    (∃ q, p = .position q) ↔ ¬ resetMark <+: cs := by
  unfold ofText? at h
  cases hmark : resetMark.isPrefixOf? cs with
  | some rest =>
      rw [hmark] at h
      obtain ⟨s, reason, rfl⟩ := readReset?_eq_some h
      have hbegins : resetMark <+: cs := ⟨rest, List.isPrefixOf?_eq_some_iff_append_eq.1 hmark⟩
      simp [hbegins]
  | none =>
      rw [hmark] at h
      refine iff_of_true (readPosition?_eq_some h) ?_
      rintro ⟨rest, rfl⟩
      rw [Text.isPrefixOf?_append] at hmark
      cases hmark

/-- A payload is read back from its bytes, a reset with every number and reason, and a position with
every coordinate. Of the contents that are read as anything, those that start with `reset:` are read as
resets, and no others are. -/
theorem told_apart_by_mark :
    (∀ p : Payload, ofBytes p.bytes = .ok p) ∧
    ∀ (content : Bytes) (p : Payload), ofBytes content = .ok p →
      ((∃ q, p = .position q) ↔ ¬ Text.bytesOf "reset:" <+: content) := by
  refine ⟨ofBytes_bytes, fun content p h => ?_⟩
  unfold ofBytes at h
  split at h
  · cases h
  · next cs hcs =>
      split at h
      · next p' hread =>
          cases h
          rw [Text.decode?_eq_some_iff.1 hcs, isPosition_iff_of_ofText? hread]
          exact not_congr Text.encode_prefix_iff.symm
      · cases h

/-- The greatest number with a reason full of separators, and a point far out of the world. -/
theorem told_apart_by_mark_separators :
    let reset : Payload := .reset 4294967295 ":1,2,\n"
    let place : Payload := .position ⟨.infinite true, .neg .zero, .half⟩
    ofBytes reset.bytes = .ok reset ∧ Text.bytesOf "reset:" <+: reset.bytes ∧
      ofBytes place.bytes = .ok place ∧ ¬ Text.bytesOf "reset:" <+: place.bytes := by
  intro reset place
  obtain ⟨hback, hkind⟩ := told_apart_by_mark
  refine ⟨hback reset, ?_, hback place, (hkind _ _ (hback place)).1 ⟨_, rfl⟩⟩
  by_contra hmark
  obtain ⟨q, hq⟩ := (hkind _ _ (hback reset)).2 hmark
  simp [reset] at hq

end Payload

end RegionSync
