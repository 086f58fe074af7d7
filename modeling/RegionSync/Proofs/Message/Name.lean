import RegionSync.Message
import RegionSync.Proofs.Text.Split

/-!
Names and their texts. A name that was built from text has components that are not empty and hold no
slash, so its own text falls into these components again and belongs to no other name. It is read back
if no component has a blank: reading refuses blanks, extending a name does not.
-/

namespace RegionSync

namespace Text

variable {sep : Char} {pieces : List (List Char)}

theorem segments_cons_sep (cs : List Char) : segments sep (sep :: cs) = segments sep cs :=
  segments_append [] cs

theorem flatMap_cons_eq_intercalate (hne : pieces ≠ []) :
    pieces.flatMap (sep :: ·) = sep :: List.intercalate [sep] pieces := by
  induction pieces with
  | nil => exact absurd rfl hne
  | cons piece pieces ih =>
      rw [List.flatMap_cons]
      cases pieces with
      | nil => rw [List.flatMap_nil, List.append_nil, List.intercalate_singleton]
      | cons other pieces =>
          rw [ih (List.cons_ne_nil _ _), List.intercalate_cons_cons, List.append_assoc]
          rfl

/-- Pieces with a separator before each are the segments of their text. -/
theorem segments_flatMap (h : ∀ piece ∈ pieces, sep ∉ piece ∧ piece ≠ []) :
    segments sep (pieces.flatMap (sep :: ·)) = pieces := by
  by_cases hne : pieces = []
  · subst hne
    rfl
  · rw [flatMap_cons_eq_intercalate hne, segments_cons_sep, segments_intercalate h]

theorem of_mem_segments {cs piece : List Char} (h : piece ∈ segments sep cs) :
    sep ∉ piece ∧ piece ≠ [] := by
  obtain ⟨hpiece, hne⟩ := List.mem_filter.1 h
  refine ⟨fun hsep => ?_, by simpa using hne⟩
  have hfree := not_sep_of_mem_splitWhen hpiece hsep
  rw [beq_self_eq_true] at hfree
  cases hfree

end Text

namespace Name

variable {n n' : Name}

/-- A name that is read from a text, or such a name extended by texts. -/
inductive Built : Name → Prop
  | parse {text : String} {n : Name} (h : Name.parse text = .ok n) : Built n
  | child {n : Name} (h : Built n) (text : String) : Built (n.child text)

theorem parse_eq_ok {text : String} (h : Name.parse text = .ok n) :
    hasBlank text = false ∧ n = ⟨componentsOf text⟩ := by
  rw [Name.parse, ofText?] at h
  by_cases hblank : hasBlank text = true
  · rw [if_pos hblank] at h
    cases h
  · rw [if_neg hblank] at h
    cases h
    exact ⟨Bool.eq_false_iff.2 hblank, rfl⟩

theorem of_mem_componentsOf {text component : String} (h : component ∈ componentsOf text) :
    '/' ∉ component.toList ∧ component.toList ≠ [] := by
  obtain ⟨piece, hpiece, rfl⟩ := List.mem_map.1 h
  rw [String.toList_ofList]
  exact Text.of_mem_segments hpiece

/-- No component of a name is empty or holds a slash. -/
theorem Built.of_mem (h : n.Built) {component : String} (hmem : component ∈ n.components) :
    '/' ∉ component.toList ∧ component.toList ≠ [] := by
  induction h with
  | parse h =>
      rw [(parse_eq_ok h).2] at hmem
      exact of_mem_componentsOf hmem
  | child h text ih =>
      rcases List.mem_append.1 hmem with hmem | hmem
      · exact ih hmem
      · exact of_mem_componentsOf hmem

theorem toList_text (hne : n.components ≠ []) :
    n.text.toList = (n.components.map String.toList).flatMap ('/' :: ·) := by
  rw [text, if_neg (by simpa using hne)]
  generalize n.components = components
  induction components with
  | nil => rfl
  | cons component components ih =>
      rw [List.map_cons, String.join_cons, String.toList_append, ih, List.map_cons,
        List.flatMap_cons, String.toList_append]
      rfl

/-- The text of a name falls into its components. -/
theorem Built.componentsOf_text (h : n.Built) : componentsOf n.text = n.components := by
  by_cases hne : n.components = []
  · rw [text, hne]
    rfl
  · have hpieces : ∀ piece ∈ n.components.map String.toList, '/' ∉ piece ∧ piece ≠ [] := by
      intro piece hpiece
      obtain ⟨component, hmem, rfl⟩ := List.mem_map.1 hpiece
      exact h.of_mem hmem
    rw [componentsOf, toList_text hne, Text.segments_flatMap hpieces, List.map_map]
    apply (List.map_congr_left _).trans (List.map_id _)
    intro component _
    exact String.ofList_toList

/-- Different names have different texts. -/
theorem Built.eq_of_text_eq (h : n.Built) (h' : n'.Built) (heq : n.text = n'.text) : n = n' := by
  have hcomponents : n.components = n'.components := by
    rw [← h.componentsOf_text, ← h'.componentsOf_text, heq]
  cases n
  cases n'
  exact congrArg Name.mk hcomponents

/-! Reading back. -/

/-- A blank is inside a component. -/
theorem any_componentsOf (text : String) : (componentsOf text).any hasBlank = hasBlank text := by
  have hslash : Text.isBlank '/' = false := by decide
  rw [componentsOf, List.any_map, hasBlank, ← Text.any_segments hslash]
  congr 1
  funext piece
  rw [Function.comp_apply, hasBlank, String.toList_ofList]

theorem Built.hasBlank_text (h : n.Built) : hasBlank n.text = n.components.any hasBlank := by
  rw [← any_componentsOf, h.componentsOf_text]

/-- What is read from the text of a name is the name. -/
theorem Built.parse_text (h : n.Built) :
    Name.parse n.text =
      if n.components.any hasBlank then .error (.invalidName n.text) else .ok n := by
  rw [Name.parse, ofText?, h.hasBlank_text, h.componentsOf_text]
  cases n.components.any hasBlank with
  | false => rfl
  | true => rfl

/-- The name extended by each of these texts in turn. -/
def extend (n : Name) (texts : List String) : Name :=
  texts.foldl child n

theorem Built.extend (h : n.Built) (texts : List String) : (n.extend texts).Built := by
  induction texts generalizing n with
  | nil => exact h
  | cons text texts ih => exact ih (h.child text)

theorem components_extend (texts : List String) :
    (n.extend texts).components = n.components ++ texts.flatMap componentsOf := by
  induction texts generalizing n with
  | nil => exact (List.append_nil _).symm
  | cons text texts ih =>
      rw [List.flatMap_cons, ← List.append_assoc]
      exact ih

/-- The blanks of a name that was read and then extended are those of the extensions. -/
theorem any_extend {text : String} (h : Name.parse text = .ok n) (texts : List String) :
    (n.extend texts).components.any hasBlank = texts.any hasBlank := by
  obtain ⟨hblank, rfl⟩ := parse_eq_ok h
  rw [components_extend, List.any_append, any_componentsOf, hblank, Bool.false_or, List.any_flatMap]
  congr 1
  funext text
  exact any_componentsOf text

/-- The components of a name that was read from a text and extended by any texts are not empty and
hold no slash, and no other name has its text. The text is read back, to the name, exactly if none of
the extensions has a blank. -/
theorem reads_back_iff_unblank {text : String} (h : Name.parse text = .ok n) (texts : List String) :
    (∀ component ∈ (n.extend texts).components, component ≠ "" ∧ '/' ∉ component.toList) ∧
    (∀ m : Name, m.Built → m.text = (n.extend texts).text → m = n.extend texts) ∧
    Name.parse (n.extend texts).text =
      if texts.any hasBlank then .error (.invalidName (n.extend texts).text)
      else .ok (n.extend texts) := by
  have hbuilt := (Built.parse h).extend texts
  refine ⟨fun component hmem => ?_, fun m hm htext => hm.eq_of_text_eq hbuilt htext, ?_⟩
  · obtain ⟨hslash, hne⟩ := hbuilt.of_mem hmem
    exact ⟨fun hempty => hne (by rw [hempty]; rfl), hslash⟩
  · rw [hbuilt.parse_text, any_extend h]

/-- Slashes in an extension cut it, and the name is read back. A blank in an extension stays, and what
the name writes is refused. -/
theorem reads_back_iff_unblank_two_extensions :
    Name.parse "/a" = .ok ⟨["a"]⟩ ∧
      Name.parse "/a/b/c/d" = .ok ⟨["a", "b", "c", "d"]⟩ ∧
      Name.extend ⟨["a"]⟩ ["b c"] = ⟨["a", "b c"]⟩ ∧
      Name.parse "/a/b c" = .error (.invalidName "/a/b c") := by
  have hunblank : hasBlank "/a" = false := by decide +kernel
  have hcomponents : componentsOf "/a" = ["a"] := by decide +kernel
  have hread : Name.parse "/a" = .ok ⟨["a"]⟩ := by
    rw [Name.parse, ofText?, hunblank, hcomponents]
    rfl
  obtain ⟨-, -, hback⟩ := reads_back_iff_unblank hread ["b//c/", "d"]
  obtain ⟨-, -, hrefused⟩ := reads_back_iff_unblank hread ["b c"]
  have hcut : Name.extend ⟨["a"]⟩ ["b//c/", "d"] = ⟨["a", "b", "c", "d"]⟩ := by decide +kernel
  have hkept : Name.extend ⟨["a"]⟩ ["b c"] = ⟨["a", "b c"]⟩ := by decide +kernel
  rw [hcut] at hback
  rw [hkept] at hrefused
  exact ⟨hread, hback, hkept, hrefused⟩

end Name

end RegionSync
