import RegionSync.Network.Agenda

/-!
An agenda stays in order of time, whether a thing is put before or after those due at the same time,
and it holds what it held and the one thing more.
-/

namespace RegionSync.Network.Agenda

variable {α : Type} {now due : Nat} {what : α} {a : Agenda α}

/-- In order of time, and nothing is overdue. -/
structure Timely (now : Nat) (a : Agenda α) : Prop where
  ordered : a.Pairwise fun x y => x.1 ≤ y.1
  ahead : ∀ x ∈ a, now ≤ x.1

theorem timely_nil (now : Nat) : Timely now ([] : Agenda α) :=
  ⟨List.Pairwise.nil, nofun⟩

/-- When the first thing is due, the others are still ahead. -/
theorem Timely.tail (h : Timely now ((due, what) :: a)) : Timely due a :=
  ⟨h.ordered.of_cons, fun _ hx => List.rel_of_pairwise_cons h.ordered hx⟩

theorem Timely.le_head (h : Timely now ((due, what) :: a)) : now ≤ due :=
  h.ahead _ List.mem_cons_self

theorem Timely.first_le (h : Timely now ((due, what) :: a)) {x : Nat × α} (hx : x ∈ (due, what) :: a) :
    due ≤ x.1 := by
  rcases List.mem_cons.1 hx with rfl | hx
  · exact Nat.le_refl due
  · exact h.tail.ahead x hx

/-- What is to happen at once is put first. -/
theorem Timely.cons (h : Timely now a) (what : α) : Timely now ((now, what) :: a) := by
  refine ⟨List.pairwise_cons.2 ⟨h.ahead, h.ordered⟩, fun x hx => ?_⟩
  rcases List.mem_cons.1 hx with rfl | hx
  · exact Nat.le_refl now
  · exact h.ahead x hx

theorem pairwise_schedule (h : a.Pairwise fun x y => x.1 ≤ y.1) (due : Nat) (what : α) :
    (schedule due what a).Pairwise fun x y => x.1 ≤ y.1 := by
  induction a with
  | nil => exact List.pairwise_singleton _ _
  | cons x rest ih =>
      obtain ⟨hx, hrest⟩ := List.pairwise_cons.1 h
      rw [schedule]
      split
      · next hlt =>
          refine List.pairwise_cons.2 ⟨fun y hy => ?_, h⟩
          rcases List.mem_cons.1 hy with rfl | hy
          · exact Nat.le_of_lt hlt
          · exact Nat.le_trans (Nat.le_of_lt hlt) (hx y hy)
      · next hge =>
          refine List.pairwise_cons.2 ⟨fun y hy => ?_, ih hrest⟩
          rcases mem_schedule.1 hy with rfl | hy
          · exact Nat.le_of_not_lt hge
          · exact hx y hy

theorem pairwise_scheduleFirst (h : a.Pairwise fun x y => x.1 ≤ y.1) (due : Nat) (what : α) :
    (scheduleFirst due what a).Pairwise fun x y => x.1 ≤ y.1 := by
  induction a with
  | nil => exact List.pairwise_singleton _ _
  | cons x rest ih =>
      obtain ⟨hx, hrest⟩ := List.pairwise_cons.1 h
      rw [scheduleFirst]
      split
      · next hlt =>
          refine List.pairwise_cons.2 ⟨fun y hy => ?_, ih hrest⟩
          rcases mem_scheduleFirst.1 hy with rfl | hy
          · exact Nat.le_of_lt hlt
          · exact hx y hy
      · next hge =>
          refine List.pairwise_cons.2 ⟨fun y hy => ?_, h⟩
          rcases List.mem_cons.1 hy with rfl | hy
          · exact Nat.le_of_not_lt hge
          · exact Nat.le_trans (Nat.le_of_not_lt hge) (hx y hy)

theorem Timely.schedule (h : Timely now a) (hdue : now ≤ due) (what : α) :
    Timely now (schedule due what a) := by
  refine ⟨pairwise_schedule h.ordered due what, fun x hx => ?_⟩
  rcases mem_schedule.1 hx with rfl | hx
  · exact hdue
  · exact h.ahead x hx

theorem Timely.scheduleFirst (h : Timely now a) (hdue : now ≤ due) (what : α) :
    Timely now (scheduleFirst due what a) := by
  refine ⟨pairwise_scheduleFirst h.ordered due what, fun x hx => ?_⟩
  rcases mem_scheduleFirst.1 hx with rfl | hx
  · exact hdue
  · exact h.ahead x hx

/-! What an agenda weighs. -/

/-- The weights of what stands in the agenda, together. -/
def load (weight : α → Nat) : Agenda α → Nat
  | [] => 0
  | (_, what) :: rest => weight what + load weight rest

theorem load_schedule (weight : α → Nat) (due : Nat) (what : α) (a : Agenda α) :
    load weight (schedule due what a) = weight what + load weight a := by
  induction a with
  | nil => rfl
  | cons x rest ih =>
      obtain ⟨t, y⟩ := x
      rw [schedule]
      split
      · rfl
      · rw [load, load, ih, Nat.add_left_comm]

theorem load_le {weight : α → Nat} {bound : Nat} (h : ∀ x ∈ a, weight x.2 ≤ bound) :
    load weight a ≤ bound * a.length := by
  induction a with
  | nil => exact Nat.le_refl 0
  | cons x rest ih =>
      have hrest := ih fun y hy => h y (List.mem_cons_of_mem _ hy)
      have hx := h x List.mem_cons_self
      rw [load, List.length_cons, Nat.mul_succ]
      omega

end RegionSync.Network.Agenda
