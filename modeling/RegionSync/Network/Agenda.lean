/-!
Things to come in virtual time. An agenda is kept in order of time, and things due at the same time
in the order in which they were put there.
-/

namespace RegionSync.Network

/-- What is due when, the earliest first. -/
abbrev Agenda (α : Type) := List (Nat × α)

namespace Agenda

variable {α : Type}

/-- The agenda with one more thing, after those due at the same time. -/
def schedule (due : Nat) (what : α) : Agenda α → Agenda α
  | [] => [(due, what)]
  | (t, x) :: rest =>
    if due < t then (due, what) :: (t, x) :: rest else (t, x) :: schedule due what rest

/-- The agenda with one more thing, before those due at the same time. -/
def scheduleFirst (due : Nat) (what : α) : Agenda α → Agenda α
  | [] => [(due, what)]
  | (t, x) :: rest =>
    if t < due then (t, x) :: scheduleFirst due what rest else (due, what) :: (t, x) :: rest

theorem mem_schedule {due : Nat} {what : α} {a : Agenda α} {item : Nat × α} :
    item ∈ schedule due what a ↔ item = (due, what) ∨ item ∈ a := by
  induction a with
  | nil => simp [schedule]
  | cons head rest ih =>
    simp only [schedule]
    split
    · simp
    · simp only [List.mem_cons, ih]
      constructor
      · rintro (h | h | h) <;> simp [h]
      · rintro (h | h | h) <;> simp [h]

theorem mem_scheduleFirst {due : Nat} {what : α} {a : Agenda α} {item : Nat × α} :
    item ∈ scheduleFirst due what a ↔ item = (due, what) ∨ item ∈ a := by
  induction a with
  | nil => simp [scheduleFirst]
  | cons head rest ih =>
    simp only [scheduleFirst]
    split
    · simp only [List.mem_cons, ih]
      constructor
      · rintro (h | h | h) <;> simp [h]
      · rintro (h | h | h) <;> simp [h]
    · simp

end Agenda

end RegionSync.Network
