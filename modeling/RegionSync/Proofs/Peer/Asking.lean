import RegionSync.Proofs.Peer.Answering

/-!
What the names of requests and answers say. Behind the name of a player stands what is asked of it: its
position, alone or with the number that is wanted, or its render tag. Names are put together in one
place and taken apart in another, and the two agree for every player and every number.
-/

namespace RegionSync

namespace Ask

variable {player name : Name} {ask : Ask} {rest : List String}

/-- The components behind a player's name that ask for this. A number may be written in any way that it
is read in. -/
inductive Ending : Ask → List String → Prop
  | current : Ending (.position none) ["position"]
  | numbered {text : String} {s : UInt32} (h : Text.readUInt32? text.toList = some s) :
      Ending (.position (some s)) ["position", text]
  | renderTag : Ending .renderTag ["info", "render"]

theorem Ending.length_eq (h : ask.Ending rest) : rest.length = 1 ∨ rest.length = 2 := by
  cases h with
  | current => exact Or.inl rfl
  | numbered => exact Or.inr rfl
  | renderTag => exact Or.inr rfl

/-- A name asks a player for something exactly if it is the player's name with an end that does. -/
theorem ofName_eq_ok_iff :
    ofName player name = .ok ask ↔ ∃ rest, name = ⟨player.components ++ rest⟩ ∧ ask.Ending rest := by
  constructor
  · intro h
    unfold ofName at h
    dsimp only at h
    split at h
    · next hname =>
        cases h
        exact ⟨_, Name.rest?_eq_some_iff.1 hname, .current⟩
    · next sequence hname =>
        split at h
        · next s hread =>
            cases h
            exact ⟨_, Name.rest?_eq_some_iff.1 hname, .numbered hread⟩
        · cases h
    · next hname =>
        cases h
        exact ⟨_, Name.rest?_eq_some_iff.1 hname, .renderTag⟩
    · cases h
  · rintro ⟨rest, rfl, hends⟩
    cases hends with
    | current => simp [ofName, Name.rest?_append]
    | numbered hread => simp [ofName, Name.rest?_append, hread]
    | renderTag => simp [ofName, Name.rest?_append]

end Ask

namespace EntityName

variable {e : EntityName}

theorem renderName_eq (e : EntityName) :
    e.renderName = ⟨e.playerName.components ++ ["info", "render"]⟩ := by
  rw [renderName, Name.child_of_not_mem (by decide) (by decide),
    Name.child_of_not_mem (by decide) (by decide), List.append_assoc]
  rfl

theorem ofName_renderName (e : EntityName) : Ask.ofName e.playerName e.renderName = .ok .renderTag :=
  Ask.ofName_eq_ok_iff.2 ⟨_, e.renderName_eq, .renderTag⟩

/-- The names that ask a player for its position, for the position of a number and for its render tag
are read as that, and an answer under the number is read as one under this number. Whatever else is
read as asking the player for something is the player's name with one or two components behind it that
ask for this. -/
theorem asked_as_named (e : EntityName) (s : UInt32) :
    Ask.ofName e.playerName e.positionName = .ok (.position none) ∧
    Ask.ofName e.playerName (e.positionName.child (String.ofList (Text.decimal s.toNat))) =
      .ok (.position (some s)) ∧
    Ask.ofName e.playerName e.renderName = .ok .renderTag ∧
    answerSequence e.positionName (e.positionName.child (String.ofList (Text.decimal s.toNat))) =
      .ok s ∧
    ∀ (name : Name) (ask : Ask), Ask.ofName e.playerName name = .ok ask ↔
      ∃ rest, name = ⟨e.playerName.components ++ rest⟩ ∧ (rest.length = 1 ∨ rest.length = 2) ∧
        ask.Ending rest := by
  refine ⟨Ask.ofName_positionName e, Ask.ofName_numbered e s, e.ofName_renderName,
    answerSequence_numbered e s, fun name ask => ?_⟩
  rw [Ask.ofName_eq_ok_iff]
  constructor
  · rintro ⟨rest, hname, hends⟩
    exact ⟨rest, hname, hends.length_eq, hends⟩
  · rintro ⟨rest, hname, -, hends⟩
    exact ⟨rest, hname, hends⟩

end EntityName

end RegionSync
