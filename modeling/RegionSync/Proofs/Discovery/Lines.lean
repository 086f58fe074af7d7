import Mathlib.Data.List.Forall2
import RegionSync.Proofs.Discovery.Listing

/-!
Bodies of answers, line by line. A newline is a byte of its own wherever it stands, so a body can be cut
at any of them: it is read if all its parts are, each as it would be read alone, and one part that is
refused refuses all of it.
-/

namespace RegionSync.Listing

variable {x y : Bytes} {lines : List Bytes} {listings : List Listing}

/-- The byte of a newline. -/
def lineEnd : UInt8 := UInt8.ofNat '\n'.toNat

theorem decode?_append_lineEnd {cs : List Char} :
    Text.decode? (x ++ lineEnd :: y) = some cs ↔
      ∃ xs ys, cs = xs ++ '\n' :: ys ∧ Text.decode? x = some xs ∧ Text.decode? y = some ys :=
  Text.decode?_append_cons_iff (by decide)

/-- Two parts are read as one body exactly if each of them is read, and then one after the other. -/
theorem ofBody_append_eq_ok_iff : ofBody (x ++ lineEnd :: y) = .ok listings ↔
    ∃ first second, ofBody x = .ok first ∧ ofBody y = .ok second ∧ listings = first ++ second := by
  simp only [ofBody_eq_ok_iff, decode?_append_lineEnd]
  constructor
  · rintro ⟨_, ⟨xs, ys, rfl, hx, hy⟩, hread⟩
    rw [Text.segments_append, List.map_append] at hread
    obtain ⟨first, second, rfl, hfirst, hsecond⟩ := List.append_eq_map_iff.1 hread
    exact ⟨first, second, ⟨xs, hx, hfirst.symm⟩, ⟨ys, hy, hsecond.symm⟩, rfl⟩
  · rintro ⟨first, second, ⟨xs, hx, hfirst⟩, ⟨ys, hy, hsecond⟩, rfl⟩
    refine ⟨xs ++ '\n' :: ys, ⟨xs, ys, rfl, hx, hy⟩, ?_⟩
    rw [Text.segments_append, List.map_append, List.map_append, hfirst, hsecond]

theorem ofBody_nil : ofBody [] = .ok [] :=
  @ofBody_body [] nofun

/-- So are any number of lines. -/
theorem ofBody_intercalate_eq_ok_iff :
    ofBody (List.intercalate [lineEnd] lines) = .ok listings ↔
      ∃ parts, List.Forall₂ (fun line part => ofBody line = .ok part) lines parts ∧
        listings = parts.flatten := by
  induction lines generalizing listings with
  | nil =>
      rw [show List.intercalate [lineEnd] [] = [] from rfl, ofBody_nil]
      simp [List.forall₂_nil_left_iff, eq_comm]
  | cons line lines ih =>
      cases lines with
      | nil =>
          rw [List.intercalate_singleton]
          simp [List.forall₂_cons_left_iff, List.forall₂_nil_left_iff]
      | cons other lines =>
          rw [List.intercalate_cons_cons, List.append_assoc, List.singleton_append,
            ofBody_append_eq_ok_iff]
          simp only [ih, List.forall₂_cons_left_iff (a := line)]
          constructor
          · rintro ⟨first, _, hfirst, ⟨parts, hparts, rfl⟩, rfl⟩
            exact ⟨first :: parts, ⟨first, parts, hfirst, hparts, rfl⟩, rfl⟩
          · rintro ⟨_, ⟨first, parts, hfirst, hparts, rfl⟩, rfl⟩
            exact ⟨first, parts.flatten, hfirst, ⟨parts, hparts, rfl⟩, rfl⟩

theorem unreadable_iff_error {bytes : Bytes} : Unreadable bytes ↔ ∃ e, ofBody bytes = .error e := by
  rw [unreadable_iff]
  cases ofBody bytes with
  | ok listings => simp
  | error e => simp

theorem not_unreadable_iff {bytes : Bytes} :
    ¬ Unreadable bytes ↔ ∃ listings, ofBody bytes = .ok listings := by
  rw [unreadable_iff, not_forall_not]

theorem unreadable_append_iff : Unreadable (x ++ lineEnd :: y) ↔ Unreadable x ∨ Unreadable y := by
  rw [← not_iff_not, not_or, not_unreadable_iff, not_unreadable_iff, not_unreadable_iff]
  simp only [ofBody_append_eq_ok_iff]
  constructor
  · rintro ⟨_, first, second, hfirst, hsecond, -⟩
    exact ⟨⟨first, hfirst⟩, second, hsecond⟩
  · rintro ⟨⟨first, hfirst⟩, second, hsecond⟩
    exact ⟨_, first, second, hfirst, hsecond, rfl⟩

/-- One line that is refused refuses the body. -/
theorem unreadable_intercalate_iff :
    Unreadable (List.intercalate [lineEnd] lines) ↔ ∃ line ∈ lines, Unreadable line := by
  induction lines with
  | nil => simpa using not_unreadable_iff.2 ⟨_, ofBody_nil⟩
  | cons line lines ih =>
      cases lines with
      | nil => simp
      | cons other lines =>
          rw [List.intercalate_cons_cons, List.append_assoc, List.singleton_append,
            unreadable_append_iff, ih, List.exists_mem_cons_iff _ line]

/-- A line alone is one listing, or says nothing if it is empty. -/
theorem ofBody_line_eq_ok_iff {line : Bytes} (h : lineEnd ∉ line) :
    ofBody line = .ok listings ↔ ∃ cs, Text.decode? line = some cs ∧
      (cs = [] ∧ listings = [] ∨ cs ≠ [] ∧ ∃ l, ofLine? cs = some l ∧ listings = [l]) := by
  rw [ofBody_eq_ok_iff]
  refine exists_congr fun cs => and_congr_right fun hcs => ?_
  by_cases hempty : cs = []
  · subst hempty
    simp [Text.segments, Text.split, Text.splitWhen]
  · have hfree : '\n' ∉ cs := by
      intro hmem
      obtain ⟨xs, ys, rfl⟩ := List.append_of_mem hmem
      obtain ⟨before, after, rfl⟩ : ∃ before after, line = before ++ lineEnd :: after :=
        ⟨_, _, Text.decode?_eq_some_iff.1 hcs ▸ Text.encode_append ..⟩
      exact h (by simp)
    rw [Text.segments_of_not_mem hfree hempty, List.map_singleton, eq_comm,
      List.map_eq_singleton_iff]
    simp [hempty, and_comm, eq_comm]

/-- Bodies are read line by line and as a whole or not at all. What stands on both sides of a newline is
read exactly if both sides are, one after the other, and so are the lines of a body. It is refused
exactly if some line of it is, because it is no text or no listing. A line is read by itself: it is
empty and says nothing, or is one listing. -/
theorem read_line_by_line :
    (∀ (x y : Bytes) (listings : List Listing), ofBody (x ++ lineEnd :: y) = .ok listings ↔
      ∃ first second, ofBody x = .ok first ∧ ofBody y = .ok second ∧ listings = first ++ second) ∧
    (∀ (lines : List Bytes) (listings : List Listing),
      ofBody (List.intercalate [lineEnd] lines) = .ok listings ↔
        ∃ parts, List.Forall₂ (fun line part => ofBody line = .ok part) lines parts ∧
          listings = parts.flatten) ∧
    (∀ lines : List Bytes, (∃ e, ofBody (List.intercalate [lineEnd] lines) = .error e) ↔
      ∃ line ∈ lines, Unreadable line) ∧
    ∀ (line : Bytes) (listings : List Listing), lineEnd ∉ line →
      (ofBody line = .ok listings ↔ ∃ cs, Text.decode? line = some cs ∧
        (cs = [] ∧ listings = [] ∨ cs ≠ [] ∧ ∃ l, ofLine? cs = some l ∧ listings = [l])) := by
  refine ⟨fun x y listings => ofBody_append_eq_ok_iff,
    fun lines listings => ofBody_intercalate_eq_ok_iff, fun lines => ?_,
    fun line listings h => ofBody_line_eq_ok_iff h⟩
  rw [← unreadable_iff_error, unreadable_intercalate_iff]

/-- Two listings with an empty line between them, and the same body with a byte in that line that is no
text. -/
theorem read_line_by_line_hub :
    let first : Listing := ⟨⟨[2, 4]⟩, [⟨"/hub", "a"⟩, ⟨"/hub", "b"⟩]⟩
    let second : Listing := ⟨⟨[7]⟩, []⟩
    let lineOf (l : Listing) : Bytes := Text.encode l.line
    lineEnd ∉ lineOf first ∧ lineEnd ∉ lineOf second ∧
      ofBody (List.intercalate [lineEnd] [lineOf first, [], lineOf second]) = .ok [first, second] ∧
      ∃ e, ofBody (List.intercalate [lineEnd] [lineOf first, [0xff], lineOf second]) = .error e := by
  intro first second lineOf
  obtain ⟨-, hlines, hrefused, hline⟩ := read_line_by_line
  have hfirst : lineEnd ∉ lineOf first := by decide
  have hsecond : lineEnd ∉ lineOf second := by decide
  refine ⟨hfirst, hsecond, (hlines _ _).2 ⟨[[first], [], [second]], ?_, rfl⟩, (hrefused _).2 ?_⟩
  · refine .cons ((hline _ _ hfirst).2 ?_) (.cons ofBody_nil (.cons ((hline _ _ hsecond).2 ?_) .nil))
    · exact ⟨first.line, Text.decode?_encode _, Or.inr ⟨by decide, first, by decide, rfl⟩⟩
    · exact ⟨second.line, Text.decode?_encode _, Or.inr ⟨by decide, second, by decide, rfl⟩⟩
  · refine ⟨[0xff], by simp, Or.inl ?_⟩
    simp [Text.decode?, Text.decodeNext?]

end RegionSync.Listing
