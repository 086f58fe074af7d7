import RegionSync.Entity.NameSet
import RegionSync.Proofs.Discovery.Listing

/-!
What the key of a digest remembers. A name is combined with the key before it, which repeats until
the name ends, or is cut off there. So a key goes on telling two lists apart that differ in one name,
until a later name is so short that it ends before the difference.
-/

namespace RegionSync

/-- The text of the name in bytes, as the digest takes it. -/
def EntityName.bytes (e : EntityName) : Bytes :=
  Text.bytesOf e.text

namespace Digest

variable {key key' text text' : Bytes} {names : List EntityName} {a b : EntityName}

/-- The byte at this place of a key that is written again and again. -/
def repeated (key : Bytes) (i : Nat) : UInt8 :=
  key.getD (i % key.length) 0

/-- The key after further names. -/
def keyFrom (key : Bytes) (names : List EntityName) : Bytes :=
  names.foldl (fun key name => fold key name.bytes) key

/-- The keys repeat alike as far as the name goes. -/
def AlikeFor (key key' : Bytes) (e : EntityName) : Prop :=
  ∀ i < e.bytes.length, repeated key i = repeated key' i

/-! One name. -/

theorem fold_eq (hkey : key ≠ []) :
    fold key text = text.mapIdx fun i b => b ^^^ repeated key i := by
  rw [fold, if_neg (by simpa using hkey)]
  rfl

@[simp] theorem length_fold (key text : Bytes) : (fold key text).length = text.length := by
  unfold fold
  split
  · rfl
  · exact List.length_mapIdx

theorem fold_ne_nil (htext : text ≠ []) : fold key text ≠ [] := by
  rw [← List.length_pos_iff, length_fold]
  exact List.length_pos_iff.2 htext

theorem getElem?_fold (hkey : key ≠ []) (i : Nat) :
    (fold key text)[i]? = text[i]?.map (· ^^^ repeated key i) := by
  rw [fold_eq hkey, List.getElem?_mapIdx]

/-- The text that was combined with a key can be told from the outcome. -/
theorem fold_injective (key : Bytes) : Function.Injective (fold key) := by
  intro text text' h
  by_cases hkey : key = []
  · subst hkey
    exact h
  · apply List.ext_getElem?
    intro i
    have hi := congrArg (·[i]?) h
    simp only [getElem?_fold hkey] at hi
    exact Option.map_injective (fun _ _ => (UInt8.xor_left_inj _).1) hi

theorem fold_eq_fold_iff (hkey : key ≠ []) (hkey' : key' ≠ []) :
    fold key text = fold key' text ↔ ∀ i < text.length, repeated key i = repeated key' i := by
  rw [fold_eq hkey, fold_eq hkey', List.mapIdx_eq_mapIdx_iff]
  simp only [UInt8.xor_right_inj]

theorem getElem?_mod_length (htext : text ≠ []) (i : Nat) :
    text[i % text.length]? = some (repeated text i) := by
  have hlt : i % text.length < text.length := Nat.mod_lt _ (List.length_pos_iff.2 htext)
  rw [repeated, List.getD_eq_getElem?_getD, List.getElem?_eq_getElem hlt]
  rfl

theorem repeated_fold (hkey : key ≠ []) (htext : text ≠ []) (i : Nat) :
    repeated (fold key text) i = repeated text i ^^^ repeated key (i % text.length) := by
  apply Option.some.inj
  rw [← getElem?_mod_length (fold_ne_nil htext), length_fold, getElem?_fold hkey,
    getElem?_mod_length htext]
  rfl

/-- Texts of one length repeat alike as far as they begin alike. -/
theorem repeated_iff_take (htext : text ≠ []) (hlength : text.length = text'.length) (n : Nat) :
    (∀ i < n, repeated text i = repeated text' i) ↔ text.take n = text'.take n := by
  have htext' : text' ≠ [] := List.length_pos_iff.1 (hlength ▸ List.length_pos_iff.2 htext)
  constructor
  · intro h
    apply List.ext_getElem?
    intro i
    rw [List.getElem?_take, List.getElem?_take]
    split
    · next hi =>
        by_cases hin : i < text.length
        · have hbyte := getElem?_mod_length htext i
          have hbyte' := getElem?_mod_length htext' i
          rw [Nat.mod_eq_of_lt hin] at hbyte
          rw [← hlength, Nat.mod_eq_of_lt hin] at hbyte'
          rw [hbyte, hbyte', h i hi]
        · rw [List.getElem?_eq_none (by omega), List.getElem?_eq_none (by omega)]
    · rfl
  · intro h i hi
    have hlt : i % text.length < n := Nat.lt_of_le_of_lt (Nat.mod_le ..) hi
    apply Option.some.inj
    calc some (repeated text i) = (text.take n)[i % text.length]? := by
          rw [List.getElem?_take_of_lt hlt, getElem?_mod_length htext]
      _ = (text'.take n)[i % text'.length]? := by rw [h, hlength]
      _ = some (repeated text' i) := by
          rw [List.getElem?_take_of_lt (hlength ▸ hlt), getElem?_mod_length htext']

/-! Lists of names. -/

theorem key_append (before after : List EntityName) :
    Digest.key (before ++ after) = keyFrom (Digest.key before) after :=
  List.foldl_append

theorem keyFrom_cons (key : Bytes) (e : EntityName) (names : List EntityName) :
    keyFrom key (e :: names) = keyFrom (fold key e.bytes) names := rfl

theorem bytes_ne_nil (e : EntityName) : e.bytes ≠ [] := by
  intro h
  have hread := Text.decode?_encode e.text.toList
  rw [show Text.encode e.text.toList = [] from h, Text.decode?] at hread
  exact e.text_ne_nil (Option.some.inj hread).symm

theorem bytes_injective (ha : a.Valid) (hb : b.Valid) (h : a.bytes = b.bytes) : a = b := by
  have htext : a.text.toList = b.text.toList := by
    apply Option.some.inj
    rw [← Text.decode?_encode, ← Text.decode?_encode]
    exact congrArg Text.decode? h
  exact Option.some.inj (ha.ofText?_text.symm.trans (htext ▸ hb.ofText?_text))

theorem keyFrom_ne_nil (hkey : key ≠ []) (names : List EntityName) : keyFrom key names ≠ [] := by
  induction names generalizing key with
  | nil => exact hkey
  | cons e names ih => exact ih (fold_ne_nil (bytes_ne_nil e))

theorem key_ne_nil (names : List EntityName) : Digest.key names ≠ [] :=
  keyFrom_ne_nil (by decide) names

/-- Two keys become one exactly if they were one or some name ends where they still repeat alike. -/
theorem keyFrom_eq_iff (hkey : key ≠ []) (hkey' : key' ≠ []) :
    keyFrom key names = keyFrom key' names ↔ key = key' ∨ ∃ c ∈ names, AlikeFor key key' c := by
  induction names generalizing key key' with
  | nil => simp [keyFrom]
  | cons c names ih =>
      have hc := bytes_ne_nil c
      have hpos := List.length_pos_iff.2 hc
      have hnow : fold key c.bytes = fold key' c.bytes ↔ AlikeFor key key' c :=
        fold_eq_fold_iff hkey hkey'
      have hlater : ∀ d, AlikeFor (fold key c.bytes) (fold key' c.bytes) d ↔
          ∀ i < d.bytes.length,
            repeated key (i % c.bytes.length) = repeated key' (i % c.bytes.length) := by
        intro d
        simp only [AlikeFor, repeated_fold hkey hc, repeated_fold hkey' hc, UInt8.xor_right_inj]
      rw [keyFrom_cons, keyFrom_cons, ih (fold_ne_nil hc) (fold_ne_nil hc), hnow]
      simp only [hlater, List.mem_cons]
      constructor
      · rintro (h | ⟨d, hd, h⟩)
        · exact .inr ⟨c, .inl rfl, h⟩
        · -- the shorter one of both names ends before any difference
          rcases Nat.le_total d.bytes.length c.bytes.length with hle | hle
          · refine .inr ⟨d, .inr hd, fun i hi => ?_⟩
            have := h i hi
            rwa [Nat.mod_eq_of_lt (Nat.lt_of_lt_of_le hi hle)] at this
          · refine .inr ⟨c, .inl rfl, fun i hi => ?_⟩
            have := h i (Nat.lt_of_lt_of_le hi hle)
            rwa [Nat.mod_eq_of_lt hi] at this
      · rintro (rfl | ⟨d, rfl | hd, h⟩)
        · exact .inl fun _ _ => rfl
        · exact .inl h
        · exact .inr ⟨d, hd, fun i hi => h _ (Nat.lt_of_le_of_lt (Nat.mod_le ..) hi)⟩

/-- Different byte strings with one hash. -/
def Collide (u v : Bytes) : Prop :=
  u ≠ v ∧ fnv1a u = fnv1a v

/-- Two lists that differ in one name have one key exactly if some later name ends before the keys
behind the difference, written again and again, differ. If the two names are of one length, that is
if some later name is no longer than what the two begin alike. So the lists have one digest if a
later name has made their difference forgotten, and else by a collision of the hash only. -/
theorem key_eq_iff_forgotten (before after : List EntityName) (ha : a.Valid) (hb : b.Valid)
    (hne : a ≠ b) :
    (Digest.key (before ++ a :: after) = Digest.key (before ++ b :: after) ↔
      ∃ c ∈ after, AlikeFor (Digest.key (before ++ [a])) (Digest.key (before ++ [b])) c) ∧
    (a.bytes.length = b.bytes.length →
      (Digest.key (before ++ a :: after) = Digest.key (before ++ b :: after) ↔
        ∃ c ∈ after, a.bytes.take c.bytes.length = b.bytes.take c.bytes.length)) ∧
    (ofNames (before ++ a :: after) = ofNames (before ++ b :: after) ↔
      (∃ c ∈ after, AlikeFor (Digest.key (before ++ [a])) (Digest.key (before ++ [b])) c) ∨
        Collide (Digest.key (before ++ a :: after)) (Digest.key (before ++ b :: after))) := by
  have hbehind : ∀ e, Digest.key (before ++ [e]) = fold (Digest.key before) e.bytes := fun e =>
    key_append before [e]
  have hafter : ∀ e, Digest.key (before ++ e :: after) =
      keyFrom (Digest.key (before ++ [e])) after := fun e => by
    rw [List.append_cons, key_append]
  have hkeys : Digest.key (before ++ [a]) ≠ Digest.key (before ++ [b]) := by
    intro h
    rw [hbehind, hbehind] at h
    exact hne (bytes_injective ha hb (fold_injective _ h))
  have hiff : Digest.key (before ++ a :: after) = Digest.key (before ++ b :: after) ↔
      ∃ c ∈ after, AlikeFor (Digest.key (before ++ [a])) (Digest.key (before ++ [b])) c := by
    rw [hafter, hafter, keyFrom_eq_iff (key_ne_nil _) (key_ne_nil _), or_iff_right hkeys]
  refine ⟨hiff, fun hlength => ?_, ?_⟩
  · rw [hiff, hbehind, hbehind]
    simp only [AlikeFor, repeated_fold (key_ne_nil before) (bytes_ne_nil _), ← hlength,
      UInt8.xor_left_inj, repeated_iff_take (bytes_ne_nil a) hlength]
  · rw [← hiff, Collide]
    by_cases h : Digest.key (before ++ a :: after) = Digest.key (before ++ b :: after)
    · simp [ofNames, h]
    · simp [ofNames, h]

/-- Where everybody knows `p9`, nobody can tell `p10` from `p11`; `p12` is no such name. -/
theorem key_eq_iff_forgotten_short_name :
    let p9 : EntityName := ⟨"/h", "p9"⟩
    let p10 : EntityName := ⟨"/h", "p10"⟩
    let p11 : EntityName := ⟨"/h", "p11"⟩
    let p12 : EntityName := ⟨"/h", "p12"⟩
    p10.Valid ∧ p11.Valid ∧ p10 ≠ p11 ∧ ofNames [p10, p9, p12] = ofNames [p11, p9, p12] ∧
      Digest.key [p10, p12] ≠ Digest.key [p11, p12] := by
  intro p9 p10 p11 p12
  have hp10 : p10.Valid := show EntityName.isValid "/h" "p10" = true by decide
  have hp11 : p11.Valid := show EntityName.isValid "/h" "p11" = true by decide
  have hne : p10 ≠ p11 := by decide
  have hlength : p10.bytes.length = p11.bytes.length := by decide
  have hforgotten := (key_eq_iff_forgotten [] [p9, p12] hp10 hp11 hne).2.1 hlength
  have hkept := (key_eq_iff_forgotten [] [p12] hp10 hp11 hne).2.1 hlength
  refine ⟨hp10, hp11, hne, congrArg fnv1a (hforgotten.2 ⟨p9, by decide, by decide⟩), fun h => ?_⟩
  obtain ⟨c, hc, hbegin⟩ := hkept.1 h
  rw [List.mem_singleton.1 hc] at hbegin
  exact absurd hbegin (by decide)

end Digest

end RegionSync
