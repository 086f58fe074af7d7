import Mathlib.Data.List.Basic
import RegionSync.Discovery.Query
import RegionSync.Proofs.Discovery.Frame
import RegionSync.Proofs.Text.Base64

/-!
Requests read back: a frame from its component, and a query from the name that carries it.
-/

namespace RegionSync

namespace Frame

/-- Nothing in the component of a frame ends it early. -/
theorem of_mem_component {f : Frame} {c : Char} (h : c ∈ f.component.toList) :
    c ≠ '/' ∧ c ≠ '=' := by
  rw [component, String.toList_ofList] at h
  obtain ⟨d, hd, rfl⟩ := List.mem_map.1 h
  have hsymbol := Text.Base64.isSymbol_of_mem_encode f.dvd_length_encode d hd
  split
  · decide
  · next hne => exact ⟨hne, hsymbol.ne.2⟩

theorem component_ne_nil (f : Frame) : f.component.toList ≠ [] := by
  rw [component, String.toList_ofList, Ne, List.map_eq_nil_iff]
  intro hnil
  have hlength := Text.Base64.length_encode_of_dvd f.dvd_length_encode
  rw [hnil, List.length_nil] at hlength
  have hpos : 0 < f.encode.length := by
    cases f <;> simp [encode, fill]
  have hdvd := f.dvd_length_encode
  omega

theorem ofComponent_component (f : Frame) : ofComponent f.component = decode f.encode := by
  have hsymbol := Text.Base64.isSymbol_of_mem_encode f.dvd_length_encode
  have htext : f.component.toList.map (fun c => if c = '_' then '/' else c) =
      Text.Base64.encode f.encode := by
    rw [component, String.toList_ofList, List.map_map]
    refine (List.map_congr_left fun c hc => ?_).trans (List.map_id _)
    have hne := (hsymbol c hc).ne.1
    by_cases hslash : c = '/'
    · subst hslash
      rfl
    · simp [hslash, hne]
  simp only [ofComponent, htext, Text.Base64.decode_encode f.dvd_length_encode]

end Frame

namespace Name

theorem componentsOf_of_not_mem {text : String} (hslash : '/' ∉ text.toList)
    (hne : text.toList ≠ []) : componentsOf text = [text] := by
  rw [componentsOf, Text.segments_of_not_mem hslash hne, List.map_singleton, String.ofList_toList]

theorem child_of_not_mem {text : String} (hslash : '/' ∉ text.toList)
    (hne : text.toList ≠ []) (n : Name) : n.child text = ⟨n.components ++ [text]⟩ := by
  rw [child, componentsOf_of_not_mem hslash hne]

theorem rest?_append (p : Name) (rest : List String) :
    p.rest? ⟨p.components ++ rest⟩ = some rest :=
  Text.isPrefixOf?_append p.components rest

theorem rest?_eq_some_iff {p n : Name} {rest : List String} :
    p.rest? n = some rest ↔ n = ⟨p.components ++ rest⟩ := by
  rw [rest?, List.isPrefixOf?_eq_some_iff_append_eq]
  constructor
  · exact fun h => congrArg Name.mk h.symm
  · rintro rfl
    rfl

end Name

namespace Query

def digitComponent (i : OctantIndex) : String :=
  String.ofList (RegionPath.digitText i)

theorem regionName_eq (broadcast : Name) (p : RegionPath) :
    regionName broadcast p = ⟨broadcast.components ++ p.digits.map digitComponent⟩ := by
  obtain ⟨digits⟩ := p
  rw [regionName]
  induction digits generalizing broadcast with
  | nil => simp
  | cons i digits ih =>
      have hchild : broadcast.child (digitComponent i) =
          ⟨broadcast.components ++ [digitComponent i]⟩ := by
        refine Name.child_of_not_mem (fun hslash => ?_) ?_ broadcast
        · rw [digitComponent, String.toList_ofList] at hslash
          exact (RegionPath.of_mem_digitText hslash).1 rfl
        · rw [digitComponent, String.toList_ofList]
          exact RegionPath.digitText_ne_nil i
      rw [List.foldl_cons, show broadcast.child (String.ofList (RegionPath.digitText i)) = _ from
        hchild, ih, List.map_cons]
      simp

/-- The name of a query: the broadcast name, the digits of the region, and the frame. -/
theorem name_eq (broadcast : Name) (q : Query) : q.name broadcast =
    ⟨broadcast.components ++ (q.region.digits.map digitComponent ++ [q.frame.component])⟩ := by
  rw [name, Name.child_of_not_mem (fun hslash => (Frame.of_mem_component hslash).1 rfl)
    (Frame.component_ne_nil _), regionName_eq, List.append_assoc]

theorem parse_digits (digits : List OctantIndex) :
    RegionPath.parse ("/".intercalate (digits.map digitComponent)) = .ok ⟨digits⟩ := by
  have htext : ("/".intercalate (digits.map digitComponent)).toList =
      List.intercalate ['/'] (digits.map RegionPath.digitText) := by
    rw [String.toList_intercalate, List.map_map]
    congr 1
    exact List.map_congr_left fun i _ => String.toList_ofList
  rw [RegionPath.parse, htext, RegionPath.ofText?_intercalate]

/-- A query is read back from its name if its frame can be written. -/
theorem ofName_name {broadcast : Name} {q : Query} (h : q.frame.Writable) :
    ofName broadcast (q.name broadcast) = .ok q := by
  rw [name_eq]
  simp only [ofName, Name.rest?_append, List.getLast?_append, List.getLast?_singleton,
    Option.some_or, List.dropLast_concat, parse_digits, Frame.ofComponent_component, Frame.decode_encode h]
  rfl

/-- A request is read back from its name. The name has a component for each digit of the region and
one for the frame, in which nothing ends it or fills it up. -/
theorem name_faithful {q : Query} (h : q.frame.Writable) (broadcast : Name) :
    ofName broadcast (q.name broadcast) = .ok q ∧
      (q.name broadcast).length = broadcast.length + q.region.depth + 1 ∧
      ∃ component, (q.name broadcast).last? = some component ∧
        '/' ∉ component.toList ∧ '=' ∉ component.toList := by
  refine ⟨ofName_name h, ?_, q.frame.component, ?_, ?_, ?_⟩
  · rw [name_eq]
    simp only [Name.length, RegionPath.depth, List.length_append, List.length_map,
      List.length_singleton, Nat.add_assoc]
  · rw [name_eq, Name.last?, ← List.append_assoc, List.getLast?_concat]
  · exact fun hslash => (Frame.of_mem_component hslash).1 rfl
  · exact fun hpad => (Frame.of_mem_component hpad).2 rfl

/-- A frame whose Base64 text would hold slashes, below the root. -/
theorem name_faithful_slashes :
    let q : Query := ⟨.root, .parts [(⟨[3]⟩, 0xFFFFFFFF), (⟨[4, 7]⟩, 1)]⟩
    let broadcast : Name := ⟨["ndn", "broadcast"]⟩
    q.frame.Writable ∧ '/' ∈ Text.Base64.encode q.frame.encode ∧
      ofName broadcast (q.name broadcast) = .ok q ∧ (q.name broadcast).length = 3 := by
  intro q broadcast
  have hsized : q.frame.Writable := by
    refine List.forall_mem_cons.2 ⟨⟨by decide, by decide, by decide⟩, ?_⟩
    exact List.forall_mem_singleton.2 ⟨by decide, by decide, by decide⟩
  obtain ⟨hread, hlength, -⟩ := name_faithful hsized broadcast
  exact ⟨hsized, by decide, hread, hlength⟩

end Query

end RegionSync
