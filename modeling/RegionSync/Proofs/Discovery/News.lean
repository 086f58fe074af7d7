import RegionSync.Discovery.Exchange

/-!
What is news in listings. Going through the listings of tracked leaves, each player is taken at its
first mention, in the order of these; later mentions of it change nothing.
-/

namespace RegionSync.Discovery

variable {t : Octree} {listings : List Listing} {self : EntityName}
  {m : RegionPath × EntityName} {list : List (RegionPath × EntityName)}

/-- The listings of tracked leaves. -/
def heeded (t : Octree) (listings : List Listing) : List Listing :=
  listings.filter fun l => t.isTracked l.region && t.isLeaf l.region

/-- The players that listings of tracked leaves name, each time with the leaf, in order. -/
def mentions (t : Octree) (listings : List Listing) : List (RegionPath × EntityName) :=
  (heeded t listings).flatMap fun l => l.names.map (l.region, ·)

/-- Of the mentions of each player the first. -/
def firsts (list : List (RegionPath × EntityName)) : List (RegionPath × EntityName) :=
  list.eraseDupsBy fun m n => m.2 == n.2

theorem mem_mentions_iff : m ∈ mentions t listings ↔ ∃ l ∈ listings,
    t.isTracked l.region = true ∧ t.isLeaf l.region = true ∧ l.region = m.1 ∧ m.2 ∈ l.names := by
  simp only [mentions, heeded, List.mem_flatMap, List.mem_filter, List.mem_map, Bool.and_eq_true,
    Prod.ext_iff]
  constructor
  · rintro ⟨l, ⟨hl, htracked, hleaf⟩, e, he, hregion, rfl⟩
    exact ⟨l, hl, htracked, hleaf, hregion, he⟩
  · rintro ⟨l, hl, htracked, hleaf, hregion, he⟩
    exact ⟨l, ⟨hl, htracked, hleaf⟩, m.2, he, hregion, rfl⟩

/-- The first mention of a player is in the first listing that names it. -/
theorem find?_mentions (t : Octree) (listings : List Listing) (e : EntityName) :
    (mentions t listings).find? (fun m => m.2 == e) =
      ((heeded t listings).find? fun l => l.names.contains e).map fun l => (l.region, e) := by
  rw [mentions]
  induction heeded t listings with
  | nil => rfl
  | cons l heeded ih =>
      have hhead : (l.names.map (l.region, ·)).find? (fun m => m.2 == e) =
          if l.names.contains e = true then some (l.region, e) else none := by
        rw [List.find?_map]
        change (l.names.find? fun f => f == e).map _ = _
        cases hfound : l.names.find? (· == e) with
        | none =>
            rw [if_neg, Option.map_none]
            rw [List.contains_iff_mem]
            intro he
            simpa using List.find?_eq_none.1 hfound e he
        | some f =>
            obtain rfl : f = e := by simpa using List.find?_some hfound
            rw [if_pos (List.contains_iff_mem.2 (List.mem_of_find?_eq_some hfound)),
              Option.map_some]
      rw [List.flatMap_cons, List.find?_append, ih, hhead, List.find?_cons]
      cases l.names.contains e <;> rfl

/-! First mentions. -/

theorem firsts_nil : firsts [] = [] := rfl

theorem firsts_cons (m : RegionPath × EntityName) (list : List (RegionPath × EntityName)) :
    firsts (m :: list) = m :: firsts (list.filter fun n => n.2 != m.2) := by
  have hother : (fun n : RegionPath × EntityName => decide ((n.2 == m.2) = false)) =
      fun n => n.2 != m.2 := by
    funext n
    cases h : n.2 == m.2 <;> simp [bne, h]
  rw [firsts, List.eraseDupsBy_cons, hother]
  rfl

/-- After a mention, its player is passed over. -/
theorem firsts_induction {motive : List (RegionPath × EntityName) → Prop} (nil : motive [])
    (cons : ∀ m list, motive (list.filter fun n => n.2 != m.2) → motive (m :: list))
    (list : List (RegionPath × EntityName)) : motive list := by
  induction h : list.length using Nat.strongRecOn generalizing list with
  | ind n ih =>
      cases list with
      | nil => exact nil
      | cons m list =>
          refine cons m list (ih _ ?_ _ rfl)
          rw [← h]
          exact Nat.lt_succ_of_le (List.length_filter_le ..)

theorem mem_firsts_iff :
    m ∈ firsts list ↔ list.find? (fun n => n.2 == m.2) = some m := by
  induction list using firsts_induction with
  | nil => simp [firsts_nil]
  | cons first list ih =>
      rw [firsts_cons, List.mem_cons, ih, List.find?_cons, List.find?_filter]
      by_cases hname : first.2 = m.2
      · rw [beq_iff_eq.2 hname, or_iff_left, Option.some.injEq, eq_comm]
        intro hlater
        have hother := (List.find?_eq_some_iff_append.1 hlater).1
        simp [hname] at hother
      · have hsame : (fun n : RegionPath × EntityName =>
            decide ((n.2 != first.2) = true ∧ (n.2 == m.2) = true)) = fun n => n.2 == m.2 := by
          funext n
          by_cases h : n.2 = m.2
          · simp [h, Ne.symm hname]
          · simp [h]
        rw [beq_eq_false_iff_ne.2 hname, hsame]
        refine or_iff_right ?_
        rintro rfl
        exact hname rfl

theorem mem_of_mem_firsts (h : m ∈ firsts list) : m ∈ list :=
  List.mem_of_find?_eq_some (mem_firsts_iff.1 h)

/-- Whoever is mentioned is mentioned a first time. -/
theorem exists_mem_firsts (h : m ∈ list) : ∃ p, (p, m.2) ∈ firsts list := by
  cases hfirst : list.find? (fun n => n.2 == m.2) with
  | none => simpa using List.find?_eq_none.1 hfirst m h
  | some first =>
      have hname : first.2 = m.2 := by simpa using List.find?_some hfirst
      refine ⟨first.1, ?_⟩
      rw [← hname] at hfirst ⊢
      exact mem_firsts_iff.2 hfirst

theorem nodup_firsts (list : List (RegionPath × EntityName)) :
    ((firsts list).map (·.2)).Nodup := by
  induction list using firsts_induction with
  | nil => exact List.nodup_nil
  | cons m list ih =>
      rw [firsts_cons, List.map_cons, List.nodup_cons]
      refine ⟨fun hagain => ?_, ih⟩
      obtain ⟨n, hn, hname⟩ := List.mem_map.1 hagain
      have hother := (List.mem_filter.1 (mem_of_mem_firsts hn)).2
      simp [hname] at hother

theorem firsts_eq_self (h : (list.map (·.2)).Nodup) : firsts list = list := by
  induction list with
  | nil => rfl
  | cons m list ih =>
      obtain ⟨hnot, hnodup⟩ := List.nodup_cons.1 h
      have hothers : (list.filter fun n => n.2 != m.2) = list := by
        refine List.filter_eq_self.2 fun n hn => bne_iff_ne.2 fun hname => hnot ?_
        exact List.mem_map.2 ⟨n, hn, hname⟩
      rw [firsts_cons, hothers, ih hnodup]

/-- To leave out players, it does not matter whether later mentions are gone. -/
theorem filter_firsts (keep : EntityName → Bool) (list : List (RegionPath × EntityName)) :
    (firsts list).filter (fun m => keep m.2) = firsts (list.filter fun m => keep m.2) := by
  induction list using firsts_induction with
  | nil => rfl
  | cons m list ih =>
      rw [firsts_cons, List.filter_cons, List.filter_cons, ih, List.filter_filter]
      by_cases hkeep : keep m.2 = true
      · rw [if_pos hkeep, if_pos hkeep, firsts_cons, List.filter_filter]
        simp only [Bool.and_comm]
      · rw [if_neg hkeep, if_neg hkeep]
        congr 1
        refine List.filter_congr fun n _ => ?_
        by_cases hname : n.2 = m.2
        · simp [hname, hkeep]
        · simp [hname]

/-! What is unknown. -/

/-- Going on from what was found, mentions are passed over that are no news or were found. -/
theorem foldl_unknown (fresh : RegionPath × EntityName → Bool)
    (list found : List (RegionPath × EntityName)) :
    list.foldl (fun found m =>
        if !fresh m || found.any (·.2 == m.2) then found else found ++ [m]) found =
      found ++ firsts (list.filter fun m => fresh m && !found.any (·.2 == m.2)) := by
  induction list generalizing found with
  | nil => simp [firsts_nil]
  | cons m list ih =>
      rw [List.foldl_cons]
      -- A mention that is kept is found from here on, which is what passes over the later ones.
      by_cases hskip : (!fresh m || found.any (·.2 == m.2)) = true
      · have hdrop : ¬ (fresh m && !found.any (·.2 == m.2)) = true := by
          rw [← Bool.not_not (fresh m), ← Bool.not_or, hskip]
          decide
        rw [if_pos hskip, ih, List.filter_cons, if_neg hdrop]
      · have hkeep : (fresh m && !found.any (·.2 == m.2)) = true := by
          rw [← Bool.not_not (fresh m), ← Bool.not_or, Bool.eq_false_iff.2 hskip]
          rfl
        rw [if_neg hskip, ih, List.filter_cons, if_pos hkeep, firsts_cons, List.append_assoc,
          List.singleton_append, List.filter_filter]
        congr 3
        refine List.filter_congr fun n _ => ?_
        have hother : (m.2 == n.2) = !(n.2 != m.2) := by
          rw [bne, Bool.not_not, Bool.beq_comm]
        simp only [List.any_append, List.any_cons, List.any_nil, Bool.or_false, Bool.not_or, hother,
          Bool.not_not, ← Bool.and_assoc, Bool.and_comm (n.2 != m.2)]

/-- What is unknown are the first mentions of players that their leaves do not list. -/
theorem unknown_eq (t : Octree) (listings : List Listing) (self : EntityName) :
    unknown t listings self =
      firsts ((mentions t listings).filter fun m => m.2 != self && !t.hasName m.1 m.2) := by
  have hstep : ∀ (found : List (RegionPath × EntityName)) (l : Listing), unknownIn t self found l =
      if (t.isTracked l.region && t.isLeaf l.region) = true then
        (l.names.map (l.region, ·)).foldl (fun found m =>
          if !(m.2 != self && !t.hasName m.1 m.2) || found.any (·.2 == m.2) then found
          else found ++ [m]) found
      else found := by
    intro found l
    simp only [unknownIn, List.foldl_map, Bool.not_and, Bool.not_not, bne, Bool.or_assoc]
  have hfold := foldl_unknown (fun m => m.2 != self && !t.hasName m.1 m.2) (mentions t listings) []
  rw [mentions, List.foldl_flatMap, heeded, List.foldl_filter] at hfold
  rw [unknown, show unknownIn t self = _ from funext fun found => funext (hstep found), hfold]
  simp [mentions, heeded]

/-- Where a player that is unknown is named. -/
theorem of_mem_unknown (h : m ∈ unknown t listings self) :
    m.2 ≠ self ∧ ¬ t.hasName m.1 m.2 = true ∧ ∃ l ∈ listings, t.isTracked l.region = true ∧
      t.isLeaf l.region = true ∧ l.region = m.1 ∧ m.2 ∈ l.names := by
  rw [unknown_eq] at h
  obtain ⟨hmention, hfresh⟩ := List.mem_filter.1 (mem_of_mem_firsts h)
  rw [Bool.and_eq_true, bne_iff_ne, Bool.not_eq_true'] at hfresh
  exact ⟨hfresh.1, Bool.eq_false_iff.1 hfresh.2, mem_mentions_iff.1 hmention⟩

end RegionSync.Discovery
