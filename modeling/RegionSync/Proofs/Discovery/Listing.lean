import RegionSync.Discovery.Listing
import RegionSync.Fault
import RegionSync.Proofs.Region.Path
import RegionSync.Proofs.Text.Utf8

/-!
Answers read back. Names hold no blanks and no colon but the one between owner and id, and paths
hold no blanks, so a line falls apart at its blanks into the names and the path it was made of.
-/

namespace RegionSync

namespace EntityName

/-- The name could have been read or made. -/
def Valid (e : EntityName) : Prop :=
  isValid e.owner e.id = true

theorem valid_of_make? {owner id : String} {e : EntityName} (h : make? owner id = some e) :
    e.Valid ∧ e = ⟨owner, id⟩ := by
  unfold make? at h
  split at h
  · next hvalid =>
      cases h
      exact ⟨hvalid, rfl⟩
  · cases h

theorem valid_of_make {owner id : String} {e : EntityName} (h : make owner id = .ok e) :
    e.Valid := by
  unfold make at h
  split at h
  · next hmake =>
      cases h
      exact (valid_of_make? hmake).1
  · cases h

theorem valid_of_ofText? {cs : List Char} {e : EntityName} (h : ofText? cs = some e) :
    e.Valid := by
  unfold ofText? at h
  obtain ⟨⟨owner, id⟩, -, hmake⟩ := Option.bind_eq_some_iff.1 h
  exact (valid_of_make? hmake).1

theorem of_mem_isPart {s : String} (h : isPart s = true) {c : Char} (hc : c ∈ s.toList) :
    c ≠ ':' ∧ Text.isBlank c = false := by
  simp only [isPart, Bool.and_eq_true, List.all_eq_true] at h
  simpa using h.2 c hc

theorem Valid.parts {e : EntityName} (h : e.Valid) :
    isPart e.owner = true ∧ isPart e.id = true := by
  simp only [Valid, isValid, Bool.and_eq_true] at h
  exact h.1

theorem toList_text (e : EntityName) :
    e.text.toList = e.owner.toList ++ ':' :: e.id.toList := by
  rw [text, String.toList_append, String.toList_append, List.append_assoc]
  rfl

/-- A valid name has no blank in its text, and is read back from it. -/
theorem Valid.of_mem_text {e : EntityName} (h : e.Valid) {c : Char} (hc : c ∈ e.text.toList) :
    Text.isBlank c = false := by
  rw [toList_text, List.mem_append, List.mem_cons] at hc
  rcases hc with hc | rfl | hc
  · exact (of_mem_isPart h.parts.1 hc).2
  · decide
  · exact (of_mem_isPart h.parts.2 hc).2

theorem Valid.ofText?_text {e : EntityName} (h : e.Valid) : ofText? e.text.toList = some e := by
  have hcut : Text.cutFirst? ':' e.text.toList = some (e.owner.toList, e.id.toList) := by
    refine Text.cutFirst?_eq_some_iff.2 ⟨e.toList_text, fun hcolon => ?_⟩
    exact (of_mem_isPart h.parts.1 hcolon).1 rfl
  rw [ofText?, hcut]
  simp only [Option.bind_eq_bind, Option.bind_some, String.ofList_toList, make?]
  exact if_pos h

theorem text_ne_nil (e : EntityName) : e.text.toList ≠ [] := by
  rw [toList_text]
  simp

end EntityName

namespace Listing

def Valid (l : Listing) : Prop :=
  ∀ e ∈ l.names, e.Valid

theorem mapM_ofText? {names : List EntityName} (h : ∀ e ∈ names, e.Valid) :
    (names.map fun e => e.text.toList).mapM EntityName.ofText? = some names := by
  induction names with
  | nil => rfl
  | cons e names ih =>
      rw [List.map_cons, List.mapM_cons, (h e List.mem_cons_self).ofText?_text,
        ih fun f hf => h f (List.mem_cons_of_mem _ hf)]
      rfl

/-- The texts of the names, a blank after each. -/
def namesText (names : List EntityName) : List Char :=
  (names.map fun e => e.text.toList).flatMap fun text => text ++ [' ']

theorem line_eq (l : Listing) : l.line = namesText l.names ++ l.region.text.toList := by
  rw [line, namesText, List.flatMap_map]

theorem words_namesText {names : List EntityName} (h : ∀ e ∈ names, e.Valid) :
    Text.words (namesText names) = names.map fun e => e.text.toList := by
  refine Text.words_flatMap (by decide) fun piece hpiece => ?_
  obtain ⟨e, he, rfl⟩ := List.mem_map.1 hpiece
  exact ⟨e.text_ne_nil, fun c hc => (h e he).of_mem_text hc⟩

/-- Words do not depend on a blank at the end. -/
theorem words_append_blank (cs : List Char) : Text.words (cs ++ [' ']) = Text.words cs := by
  have hsplit : Text.splitWhen Text.isBlank (cs ++ ' ' :: []) =
      Text.splitWhen Text.isBlank cs ++ [[]] := Text.splitWhen_append (by decide) cs []
  rw [Text.words, hsplit, List.filter_append, Text.words]
  exact List.append_nil _

/-- What stands before the last blank of a line, and the path after it. -/
theorem cut_line (l : Listing) :
    ∃ names, (Text.cutLast? ' ' l.line).getD ([], l.line) = (names, l.region.text.toList) ∧
      Text.words names = Text.words (namesText l.names) := by
  have hpath : ' ' ∉ l.region.text.toList := fun hblank => by
    have := RegionPath.of_mem_text hblank
    revert this
    decide
  rw [line_eq]
  rcases List.eq_nil_or_concat l.names with hnil | ⟨names, e, hnames⟩
  · refine ⟨[], ?_, ?_⟩
    · rw [hnil, namesText, List.map_nil, List.flatMap_nil, List.nil_append,
        Text.cutLast?_eq_none hpath]
      rfl
    · rw [hnil]
      rfl
  · have hends : namesText l.names = (namesText names ++ e.text.toList) ++ [' '] := by
      rw [hnames, namesText, namesText]
      simp
    refine ⟨namesText names ++ e.text.toList, ?_, ?_⟩
    · rw [hends, List.append_assoc, List.singleton_append, Text.cutLast?_append hpath]
      rfl
    · rw [hends, words_append_blank]

theorem ofLine_line {l : Listing} (h : l.Valid) : ofLine l.line = .ok l := by
  obtain ⟨names, hcut, hwords⟩ := l.cut_line
  have hread : ofLine? l.line = some l := by
    unfold ofLine?
    rw [hcut]
    simp only [RegionPath.ofText?_text, hwords, words_namesText h, mapM_ofText? h,
      Option.bind_eq_bind, Option.bind_some, Option.pure_def]
  rw [ofLine, hread]

theorem newline_not_mem_line {l : Listing} (h : l.Valid) : '\n' ∉ l.line := by
  rw [line_eq, List.mem_append, not_or]
  constructor
  · intro hmem
    obtain ⟨text, htext, hin⟩ := List.mem_flatMap.1 hmem
    obtain ⟨e, he, rfl⟩ := List.mem_map.1 htext
    rcases List.mem_append.1 hin with hin | hin
    · have := (h e he).of_mem_text hin
      revert this
      decide
    · revert hin
      decide
  · intro hmem
    have := RegionPath.of_mem_text hmem
    revert this
    decide

theorem line_eq_nil_iff {l : Listing} :
    l.line = [] ↔ (l.region.isRoot && l.names.isEmpty) = true := by
  rw [line_eq, List.append_eq_nil_iff, RegionPath.text_eq_nil_iff, Bool.and_eq_true, and_comm]
  refine and_congr_right fun _ => ?_
  cases l.names <;> simp [namesText]

/-- The listings that say something. -/
def speaking (listings : List Listing) : List Listing :=
  listings.filter fun l => !(l.region.isRoot && l.names.isEmpty)

theorem speaking_eq_self {listings : List Listing}
    (h : ∀ l ∈ listings, l.region.isRoot = false ∨ l.names ≠ []) :
    speaking listings = listings := by
  refine List.filter_eq_self.2 fun l hl => ?_
  rcases h l hl with hroot | hnames
  · rw [hroot]
    rfl
  · rw [List.isEmpty_eq_false_iff.2 hnames, Bool.and_false]
    rfl

/-- Listings are read back from the body of an answer, except those with an empty line. -/
theorem ofBody_body {listings : List Listing} (h : ∀ l ∈ listings, l.Valid) :
    ofBody (body listings) = .ok (speaking listings) := by
  have hsegments : Text.segments '\n' (bodyText listings) =
      (speaking listings).map line := by
    have hfree : ∀ piece ∈ listings.map line, ∀ c ∈ piece, (c == '\n') = false := by
      intro piece hpiece c hc
      obtain ⟨l, hl, rfl⟩ := List.mem_map.1 hpiece
      rw [beq_eq_false_iff_ne]
      exact ne_of_mem_of_not_mem hc (newline_not_mem_line (h l hl))
    have hsplit := Text.splitWhen_flatMap (p := (· == '\n')) (beq_self_eq_true '\n') hfree []
    rw [List.append_nil, List.flatMap_map] at hsplit
    rw [Text.segments, Text.split, show bodyText listings = listings.flatMap _ from rfl, hsplit,
      List.filter_append, speaking, List.filter_map]
    have hempty : ([[]] : List (List Char)).filter (fun piece => !piece.isEmpty) = [] := rfl
    rw [show Text.splitWhen (· == '\n') [] = [[]] from rfl, hempty, List.append_nil]
    congr 1
    refine List.filter_congr fun l _ => ?_
    have hnil := line_eq_nil_iff (l := l)
    rw [← List.isEmpty_iff] at hnil
    simp only [Function.comp_apply]
    congr 1
    exact Bool.eq_iff_iff.2 hnil
  have hlines : ∀ ls : List Listing, (∀ l ∈ ls, l.Valid) → (ls.map line).mapM ofLine = .ok ls := by
    intro ls hls
    induction ls with
    | nil => rfl
    | cons l ls ih =>
        rw [List.map_cons, List.mapM_cons, ofLine_line (hls l List.mem_cons_self),
          ih fun x hx => hls x (List.mem_cons_of_mem _ hx)]
        rfl
  rw [ofBody, body, Text.decode?_encode]
  show ofText (bodyText listings) = _
  rw [ofText, hsegments, hlines]
  exact fun l hl => h l (List.mem_filter.1 hl).1

/-! Whatever is read holds valid names only. -/

theorem valid_of_ofLine? {line : List Char} {l : Listing} (h : ofLine? line = some l) :
    l.Valid := by
  have hread : ∀ (texts : List (List Char)) (names : List EntityName),
      texts.mapM EntityName.ofText? = some names → ∀ e ∈ names, e.Valid := by
    intro texts
    induction texts with
    | nil =>
        intro names hnames e he
        rw [List.mapM_nil] at hnames
        cases hnames
        cases he
    | cons text texts ih =>
        intro names hnames e he
        simp only [List.mapM_cons, Option.bind_eq_bind, Option.bind_eq_some_iff, Option.pure_def,
          Option.some.injEq] at hnames
        obtain ⟨first, hfirst, rest, hrest, rfl⟩ := hnames
        rcases List.mem_cons.1 he with rfl | he
        · exact EntityName.valid_of_ofText? hfirst
        · exact ih rest hrest e he
  unfold ofLine? at h
  simp only [Option.bind_eq_bind, Option.bind_eq_some_iff, Option.pure_def,
    Option.some.injEq] at h
  obtain ⟨region, -, names, hnames, rfl⟩ := h
  exact hread _ names hnames

/-! An answer is read line by line, or not at all. -/

theorem mapM_ofLine_eq_ok_iff {lines : List (List Char)} {listings : List Listing} :
    lines.mapM ofLine = .ok listings ↔ lines.map ofLine? = listings.map some := by
  induction lines generalizing listings with
  | nil =>
      cases listings with
      | nil => exact iff_of_true rfl rfl
      | cons => exact iff_of_false nofun nofun
  | cons line lines ih =>
      rw [List.mapM_cons, List.map_cons, ofLine]
      constructor
      · intro h
        obtain ⟨l, hline, h⟩ := ok_of_bind h
        obtain ⟨rest, hrest, h⟩ := ok_of_bind h
        cases h
        rw [List.map_cons, ih.1 hrest]
        split at hline
        · next hread =>
            cases hline
            rw [hread]
        · cases hline
      · intro h
        obtain ⟨l, rest, rfl, hline, hrest⟩ := List.map_eq_cons_iff.1 h.symm
        rw [← hline, ih.2 hrest.symm]
        rfl

theorem ofBody_eq_ok_iff {bytes : Bytes} {listings : List Listing} :
    ofBody bytes = .ok listings ↔ ∃ cs, Text.decode? bytes = some cs ∧
      (Text.segments '\n' cs).map ofLine? = listings.map some := by
  unfold ofBody ofText
  cases Text.decode? bytes with
  | none => simp
  | some cs => simp [mapM_ofLine_eq_ok_iff]

/-- Nothing is read from the bytes: they are no text, or a line of it is no listing. -/
def Unreadable (bytes : Bytes) : Prop :=
  Text.decode? bytes = none ∨ ∃ cs, Text.decode? bytes = some cs ∧
    ∃ line ∈ Text.segments '\n' cs, ofLine? line = none

theorem unreadable_iff {bytes : Bytes} :
    Unreadable bytes ↔ ∀ listings, ofBody bytes ≠ .ok listings := by
  constructor
  · rintro (hnone | ⟨cs, hcs, line, hline, hnone⟩) listings h
    · obtain ⟨cs, hcs, -⟩ := ofBody_eq_ok_iff.1 h
      rw [hnone] at hcs
      cases hcs
    · obtain ⟨text, htext, hread⟩ := ofBody_eq_ok_iff.1 h
      obtain rfl : cs = text := Option.some.inj (hcs.symm.trans htext)
      have hmem := List.mem_map_of_mem (f := ofLine?) hline
      rw [hread, hnone] at hmem
      simp at hmem
  · intro h
    cases hcs : Text.decode? bytes with
    | none => exact Or.inl hcs
    | some cs =>
        by_cases hbad : ∃ line ∈ Text.segments '\n' cs, ofLine? line = none
        · exact Or.inr ⟨cs, hcs, hbad⟩
        · have hread : ∀ line ∈ Text.segments '\n' cs,
              ofLine? line = some ((ofLine? line).getD ⟨.root, []⟩) := by
            intro line hline
            cases hl : ofLine? line with
            | none => exact absurd ⟨line, hline, hl⟩ hbad
            | some l => rfl
          let listings := (Text.segments '\n' cs).map fun line => (ofLine? line).getD ⟨.root, []⟩
          refine absurd (ofBody_eq_ok_iff.2 ⟨cs, hcs, ?_⟩) (h listings)
          rw [List.map_map]
          exact List.map_congr_left hread

theorem valid_of_ofBody {bytes : Bytes} {listings : List Listing}
    (h : ofBody bytes = .ok listings) : ∀ l ∈ listings, l.Valid := by
  intro l hl
  obtain ⟨cs, -, hread⟩ := ofBody_eq_ok_iff.1 h
  obtain ⟨line, -, hline⟩ := List.mem_map.1 (hread ▸ List.mem_map_of_mem hl)
  exact valid_of_ofLine? hline

end Listing

end RegionSync
