import RegionSync.Text.Blank

/-!
Cutting text into pieces. `splitWhen` keeps every piece, empty ones included, so joining the pieces
again loses only the separators; the other cuts are built on it or stop at one separator.
-/

namespace RegionSync.Text

/-- The pieces between the characters that satisfy `p`; there is always at least one. -/
def splitWhen (p : Char → Bool) : List Char → List (List Char)
  | [] => [[]]
  | c :: cs =>
    if p c then [] :: splitWhen p cs
    else
      match splitWhen p cs with
      | [] => [[c]]
      | piece :: pieces => (c :: piece) :: pieces

/-- The pieces between the occurrences of `sep`. -/
def split (sep : Char) (cs : List Char) : List (List Char) :=
  splitWhen (· == sep) cs

/-- The pieces between the occurrences of `sep` that are not empty. -/
def segments (sep : Char) (cs : List Char) : List (List Char) :=
  (split sep cs).filter (!·.isEmpty)

/-- The maximal runs of characters that are not blank. -/
def words (cs : List Char) : List (List Char) :=
  (splitWhen isBlank cs).filter (!·.isEmpty)

/-- What stands before and after the first `sep`. -/
def cutFirst? (sep : Char) : List Char → Option (List Char × List Char)
  | [] => none
  | c :: cs =>
    if c == sep then some ([], cs)
    else (cutFirst? sep cs).map fun (before, after) => (c :: before, after)

/-- What stands before and after the last `sep`. -/
def cutLast? (sep : Char) : List Char → Option (List Char × List Char)
  | [] => none
  | c :: cs =>
    match cutLast? sep cs with
    | some (before, after) => some (c :: before, after)
    | none => if c == sep then some ([], cs) else none

theorem splitWhen_ne_nil (p : Char → Bool) (cs : List Char) : splitWhen p cs ≠ [] := by
  induction cs with
  | nil => simp [splitWhen]
  | cons c cs ih =>
    simp only [splitWhen]
    split
    · simp
    · split <;> simp

/-- Text without a separator is one piece. -/
theorem splitWhen_eq_singleton {p : Char → Bool} {cs : List Char} (h : ∀ c ∈ cs, p c = false) :
    splitWhen p cs = [cs] := by
  induction cs with
  | nil => rfl
  | cons c cs ih =>
    have hc : p c = false := h c (by simp)
    have ih := ih fun d hd => h d (by simp [hd])
    simp [splitWhen, hc, ih]

/-- A separator ends the piece before it and starts the pieces after it. -/
theorem splitWhen_append {p : Char → Bool} {s : Char} (hs : p s = true) (xs ys : List Char) :
    splitWhen p (xs ++ s :: ys) = splitWhen p xs ++ splitWhen p ys := by
  induction xs with
  | nil => simp [splitWhen, hs]
  | cons c xs ih =>
    by_cases hc : p c = true
    · simp [splitWhen, hc, ih]
    · simp only [List.cons_append, splitWhen, hc, Bool.false_eq_true, ↓reduceIte, ih]
      cases h : splitWhen p xs with
      | nil => exact absurd h (splitWhen_ne_nil p xs)
      | cons piece pieces => simp

/-- No piece holds a separator. -/
theorem not_sep_of_mem_splitWhen {p : Char → Bool} {cs piece : List Char} {c : Char}
    (hp : piece ∈ splitWhen p cs) (hc : c ∈ piece) : p c = false := by
  induction cs generalizing piece with
  | nil =>
    simp only [splitWhen, List.mem_singleton] at hp
    subst hp
    simp at hc
  | cons d cs ih =>
    simp only [splitWhen] at hp
    split at hp
    · rcases List.mem_cons.1 hp with rfl | hp
      · simp at hc
      · exact ih hp hc
    · next hd =>
      cases h : splitWhen p cs with
      | nil => exact absurd h (splitWhen_ne_nil p cs)
      | cons head tail =>
        rw [h] at hp ih
        rcases List.mem_cons.1 hp with rfl | hp
        · rcases List.mem_cons.1 hc with rfl | hc
          · simpa using hd
          · exact ih (by simp) hc
        · exact ih (by simp [hp]) hc

/-- The first cut is at `sep`, and no `sep` stands before it. -/
theorem cutFirst?_eq_some_iff {sep : Char} {cs before after : List Char} :
    cutFirst? sep cs = some (before, after) ↔ cs = before ++ sep :: after ∧ sep ∉ before := by
  induction cs generalizing before with
  | nil => simp [cutFirst?]
  | cons c cs ih =>
    by_cases hc : c = sep
    · subst hc
      simp only [cutFirst?, beq_self_eq_true, ↓reduceIte, Option.some.injEq, Prod.mk.injEq]
      cases before with
      | nil => simp
      | cons b bs => simp; intro h _ hb; exact absurd h hb
    · simp only [cutFirst?, beq_iff_eq, hc, ↓reduceIte, Option.map_eq_some_iff, Prod.exists,
        Prod.mk.injEq]
      constructor
      · rintro ⟨b, a, h, rfl, rfl⟩
        obtain ⟨rfl, hb⟩ := ih.1 h
        exact ⟨rfl, by simp [hb, Ne.symm hc]⟩
      · rintro ⟨h, hb⟩
        cases before with
        | nil => simp at h; exact absurd h.1 hc
        | cons b bs =>
          simp only [List.cons_append, List.cons.injEq] at h
          simp only [List.mem_cons, not_or] at hb
          exact ⟨bs, after, ih.2 ⟨h.2, hb.2⟩, by rw [h.1], rfl⟩

end RegionSync.Text
