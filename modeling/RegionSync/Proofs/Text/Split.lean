import RegionSync.Text.Split

/-!
Cutting text that was put together from pieces gives the pieces back, as long as no piece holds the
character that is cut at.
-/

namespace RegionSync.Text

variable {p : Char → Bool} {sep : Char} {pieces : List (List Char)}

/-- Pieces with a separator after each are cut into these pieces and those of what follows. -/
theorem splitWhen_flatMap (hsep : p sep = true) (h : ∀ piece ∈ pieces, ∀ c ∈ piece, p c = false)
    (last : List Char) : splitWhen p (pieces.flatMap (fun piece => piece ++ [sep]) ++ last) =
      pieces ++ splitWhen p last := by
  induction pieces with
  | nil => rfl
  | cons piece pieces ih =>
      have hpiece := h piece List.mem_cons_self
      have hrest := ih fun x hx => h x (List.mem_cons_of_mem _ hx)
      rw [List.flatMap_cons, List.append_assoc, List.append_assoc, List.singleton_append,
        splitWhen_append hsep, splitWhen_eq_singleton hpiece, hrest]
      rfl

theorem split_append (xs ys : List Char) :
    split sep (xs ++ sep :: ys) = split sep xs ++ split sep ys :=
  splitWhen_append (p := (· == sep)) (beq_self_eq_true sep) xs ys

theorem segments_append (xs ys : List Char) :
    segments sep (xs ++ sep :: ys) = segments sep xs ++ segments sep ys := by
  rw [segments, split_append, List.filter_append]
  rfl

theorem split_intercalate (hne : pieces ≠ []) (h : ∀ piece ∈ pieces, sep ∉ piece) :
    split sep (List.intercalate [sep] pieces) = pieces := by
  have hfree : ∀ piece ∈ pieces, ∀ c ∈ piece, (c == sep) = false := by
    intro piece hpiece c hc
    rw [beq_eq_false_iff_ne]
    exact ne_of_mem_of_not_mem hc (h piece hpiece)
  induction pieces with
  | nil => exact absurd rfl hne
  | cons piece pieces ih =>
      have hpiece := hfree piece List.mem_cons_self
      cases pieces with
      | nil =>
          rw [List.intercalate_singleton]
          exact splitWhen_eq_singleton hpiece
      | cons other pieces =>
          have hrest := ih (by simp) (fun x hx => h x (List.mem_cons_of_mem _ hx))
            fun x hx => hfree x (List.mem_cons_of_mem _ hx)
          rw [List.intercalate_cons_cons, List.append_assoc, List.singleton_append, split_append, hrest,
            split, splitWhen_eq_singleton hpiece]
          rfl

theorem segments_intercalate (h : ∀ piece ∈ pieces, sep ∉ piece ∧ piece ≠ []) :
    segments sep (List.intercalate [sep] pieces) = pieces := by
  by_cases hne : pieces = []
  · subst hne
    rfl
  · rw [segments, split_intercalate hne fun piece hpiece => (h piece hpiece).1]
    refine List.filter_eq_self.2 fun piece hpiece => ?_
    simpa using (h piece hpiece).2

/-- Text without the separator is one segment, or none if there is no text. -/
theorem segments_of_not_mem {cs : List Char} (hsep : sep ∉ cs) (hne : cs ≠ []) :
    segments sep cs = [cs] := by
  have hone : ∀ piece ∈ [cs], sep ∉ piece ∧ piece ≠ [] := by simp [hsep, hne]
  have h := segments_intercalate hone
  rwa [List.intercalate_singleton] at h

theorem any_splitWhen {q : Char → Bool} (h : ∀ c, p c = true → q c = false) (cs : List Char) :
    (splitWhen p cs).any (fun piece => piece.any q) = cs.any q := by
  induction cs with
  | nil => rfl
  | cons c cs ih =>
      rw [splitWhen, List.any_cons, ← ih]
      by_cases hc : p c = true
      · rw [if_pos hc, List.any_cons, List.any_nil, h c hc]
      · rw [if_neg hc]
        cases hpieces : splitWhen p cs with
        | nil => exact absurd hpieces (splitWhen_ne_nil p cs)
        | cons piece pieces =>
            dsimp only
            rw [List.any_cons, List.any_cons, List.any_cons, Bool.or_assoc]

/-- What is to be found in a text, other than the separator, is in one of its segments. -/
theorem any_segments {q : Char → Bool} (h : q sep = false) (cs : List Char) :
    (segments sep cs).any (fun piece => piece.any q) = cs.any q := by
  have hsep : ∀ c, (c == sep) = true → q c = false := fun c hc => by rw [eq_of_beq hc, h]
  have hkept : (fun piece : List Char => !piece.isEmpty && piece.any q) = fun piece => piece.any q := by
    funext piece
    cases piece with
    | nil => rfl
    | cons c piece => rfl
  rw [segments, List.any_filter, hkept, split, any_splitWhen hsep]

theorem words_flatMap (hblank : isBlank sep = true)
    (h : ∀ piece ∈ pieces, piece ≠ [] ∧ ∀ c ∈ piece, isBlank c = false) :
    words (pieces.flatMap fun piece => piece ++ [sep]) = pieces := by
  have hsplit := splitWhen_flatMap hblank (fun piece hpiece => (h piece hpiece).2) []
  rw [List.append_nil] at hsplit
  rw [words, hsplit, List.filter_append]
  have hkept : pieces.filter (fun piece => !piece.isEmpty) = pieces := by
    refine List.filter_eq_self.2 fun piece hpiece => ?_
    simpa using (h piece hpiece).1
  rw [hkept]
  exact List.append_nil pieces

theorem isPrefixOf?_append {α : Type} [BEq α] [ReflBEq α] (start rest : List α) :
    start.isPrefixOf? (start ++ rest) = some rest := by
  induction start with
  | nil => rfl
  | cons x start ih =>
      show (if (x == x) = true then start.isPrefixOf? (start ++ rest) else none) = some rest
      rw [if_pos (beq_self_eq_true x), ih]

theorem isPrefixOf?_of_ne {α : Type} [BEq α] [LawfulBEq α] {x y : α} (h : x ≠ y)
    (xs ys : List α) : (x :: xs).isPrefixOf? (y :: ys) = none :=
  if_neg fun heq => h (eq_of_beq heq)

theorem cutLast?_eq_none {cs : List Char} (h : sep ∉ cs) : cutLast? sep cs = none := by
  induction cs with
  | nil => rfl
  | cons c cs ih =>
      rw [List.mem_cons, not_or] at h
      simp [cutLast?, ih h.2, Ne.symm h.1]

/-- The last cut is at the separator that none follows. -/
theorem cutLast?_append {after : List Char} (h : sep ∉ after) (before : List Char) :
    cutLast? sep (before ++ sep :: after) = some (before, after) := by
  induction before with
  | nil => simp [cutLast?, cutLast?_eq_none h]
  | cons c before ih =>
      rw [List.cons_append, cutLast?, ih]

end RegionSync.Text
