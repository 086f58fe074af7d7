import Mathlib.Data.List.Perm.Basic
import RegionSync.Proofs.Instance.Unstarted
import RegionSync.Proofs.Instance.Work

/-!
What a shutdown leaves at the transport. Every registration that stands is on record, or some task
has it; a shutdown takes what is on record, and so whatever a start records later stays for good.
-/

namespace RegionSync

namespace Lifespan

variable {σ : Scheme} {s : Lifespan} {party other : Party} {x y : Strand} {m : Strand.Move}
  {handler : Handler}

/-- The records that the shutdown has emptied. -/
def emptied (s : Lifespan) : List Handler :=
  (s.shutdown.map (·.stake.emptied)).getD []

/-- What the start is about to record. -/
def filling (s : Lifespan) : Option Handler :=
  s.start.bind (·.stake.fills)

/-- The start is about to record a registration where the shutdown looks no longer. -/
def Late (s : Lifespan) (handler : Handler) : Prop :=
  handler ∈ s.emptied ∧ s.filling = some handler

/-! One task among the others. -/

theorem exists_set_perm {l : List Strand} {k : Nat} (hx : l[k]? = some x) :
    ∃ rest, l.Perm (x :: rest) ∧ (∀ y, (l.set k y).Perm (y :: rest)) ∧
      ∀ j y, j ≠ k → l[j]? = some y → y ∈ rest := by
  obtain ⟨hk, rfl⟩ := List.getElem?_eq_some_iff.1 hx
  refine ⟨l.eraseIdx k, (List.getElem_cons_eraseIdx_perm hk).symm,
    List.set_perm_cons_eraseIdx hk, ?_⟩
  intro j y hj hy
  exact List.mem_eraseIdx_iff_getElem?.2 ⟨j, hj, hy⟩

/-- Tasks that have just begun. -/
def fresh (jobs : List Job) : List Strand :=
  jobs.map fun job => .waits (.begin job)

theorem exists_rest (hx : s.strand? party = some x) :
    ∃ rest, s.strands.Perm (x :: rest) ∧
      (∀ m, (s.take party m).strands.Perm (m.strand :: (rest ++ fresh m.begun))) ∧
      ∀ other y, other ≠ party → s.strand? other = some y → y ∈ rest := by
  cases party with
  | start =>
      have hstart : s.start = some x := hx
      refine ⟨s.shutdown.toList ++ s.own, ?_, ?_, ?_⟩
      · rw [strands, hstart]
        exact .refl _
      · intro m
        rw [strands, take, put, fresh, List.append_assoc, List.append_assoc]
        exact .refl _
      · intro other y hother hy
        cases other with
        | start => exact absurd rfl hother
        | shutdown => exact List.mem_append_left _ (Option.mem_toList.2 hy)
        | own k => exact List.mem_append_right _ (List.mem_of_getElem? hy)
  | shutdown =>
      have hshutdown : s.shutdown = some x := hx
      refine ⟨s.start.toList ++ s.own, ?_, ?_, ?_⟩
      · rw [strands, hshutdown, List.append_assoc]
        exact List.perm_middle
      · intro m
        rw [strands, take, put, fresh, List.append_assoc, List.append_assoc]
        exact List.perm_middle
      · intro other y hother hy
        cases other with
        | start => exact List.mem_append_left _ (Option.mem_toList.2 hy)
        | shutdown => exact absurd rfl hother
        | own k => exact List.mem_append_right _ (List.mem_of_getElem? hy)
  | own k =>
      obtain ⟨rest, hown, hset, hothers⟩ := exists_set_perm hx
      refine ⟨s.start.toList ++ s.shutdown.toList ++ rest, ?_, ?_, ?_⟩
      · exact (hown.append_left _).trans List.perm_middle
      · intro m
        refine (((hset m.strand).append_right (fresh m.begun)).append_left
          (s.start.toList ++ s.shutdown.toList)).trans ?_
        rw [List.append_assoc _ rest]
        exact List.perm_middle
      · intro other y hother hy
        cases other with
        | start =>
            exact List.mem_append_left _ (List.mem_append_left _ (Option.mem_toList.2 hy))
        | shutdown =>
            exact List.mem_append_left _ (List.mem_append_right _ (Option.mem_toList.2 hy))
        | own j =>
            exact List.mem_append_right _ (hothers j y (fun heq => hother (congrArg _ heq)) hy)

/-- What holds between any two turns. Every registration that stands is on record or some task has
it, one task holds the lock while it is taken, and the instance counts its tasks. -/
structure Sound (s : Lifespan) : Prop where
  consistent : s.running.peer.Consistent
  ids : (s.live.map (·.id)).Nodup
  accounts : (s.live.map (·.id)).Perm (s.running.recorded ++ s.strands.flatMap (·.stake.owed))
  lock : s.strands.countP (·.stake.holds) = s.running.locked.toNat
  tasks : s.own.countP (!·.isDone) = s.running.tasks
  fits : ∀ party x, s.strand? party = some x → x.Fits s.running party
  unstarted : s.start = none → s.running.started = false ∧ s.running.registration = none
  stopped : s.running.stopped = s.shutdown.isSome
  quiet : s.emptied ≠ [] → s.running.tasks = 0

theorem countP_cons_toNat (p : Strand → Bool) (x : Strand) (rest : List Strand) :
    (x :: rest).countP p = (p x).toNat + rest.countP p := by
  rw [List.countP_cons, Nat.add_comm]
  cases p x <;> rfl

theorem flatMap_owed_fresh (jobs : List Job) : (fresh jobs).flatMap (·.stake.owed) = [] := by
  rw [List.flatMap_eq_nil_iff]
  intro y hy
  obtain ⟨job, -, rfl⟩ := List.mem_map.1 hy
  rfl

theorem countP_holds_fresh (jobs : List Job) : (fresh jobs).countP (·.stake.holds) = 0 := by
  rw [List.countP_eq_zero]
  intro y hy
  obtain ⟨job, -, rfl⟩ := List.mem_map.1 hy
  exact Bool.false_ne_true

theorem countP_alive_fresh (jobs : List Job) : (fresh jobs).countP (!·.isDone) = jobs.length := by
  rw [List.countP_eq_length.2, fresh, List.length_map]
  intro y hy
  obtain ⟨job, -, rfl⟩ := List.mem_map.1 hy
  rfl

/-! One turn. -/

/-- The player's registration is recorded by the start alone. -/
theorem registration_eq_none {i i' : Instance} {live live' : List Registration}
    {before after : Stake} (hchanges : Stake.Changes party i live before i' live' after)
    (hfills : before.fills ≠ some .player) (hnone : i.registration = none) :
    i'.registration = none := by
  have hempty : i'.kept .player = [] := by
    rcases hchanges.kept .player with hsame | hfills' | ⟨-, -, hempty⟩
    · exact hsame.trans (congrArg Option.toList hnone)
    · exact absurd hfills' hfills
    · exact hempty
  exact Option.toList_eq_nil_iff.1 hempty

/-- Whose task it is after a turn: that of the party has run on, one has just begun, or it is another
one. -/
theorem strand?_take (hx : s.strand? party = some x)
    (hy : (s.take party m).strand? other = some y) :
    other = party ∧ y = m.strand ∨ (∃ k job, other = .own k ∧ y = .waits (.begin job)) ∨
      other ≠ party ∧ s.strand? other = some y := by
  cases other with
  | start =>
      cases party with
      | start => exact Or.inl ⟨rfl, (Option.some.inj hy).symm⟩
      | shutdown => exact Or.inr (Or.inr ⟨nofun, hy⟩)
      | own k => exact Or.inr (Or.inr ⟨nofun, hy⟩)
  | shutdown =>
      cases party with
      | start => exact Or.inr (Or.inr ⟨nofun, hy⟩)
      | shutdown => exact Or.inl ⟨rfl, (Option.some.inj hy).symm⟩
      | own k => exact Or.inr (Or.inr ⟨nofun, hy⟩)
  | own k =>
      have hput : (s.put party m.strand).own[k]? = some y ∨ ∃ job, y = .waits (.begin job) := by
        have happend : ((s.put party m.strand).own ++ fresh m.begun)[k]? = some y := hy
        rw [List.getElem?_append] at happend
        split at happend
        · exact Or.inl happend
        · obtain ⟨job, -, rfl⟩ := List.mem_map.1 (List.mem_of_getElem? happend)
          exact Or.inr ⟨job, rfl⟩
      rcases hput with hput | ⟨job, rfl⟩
      · cases party with
        | start => exact Or.inr (Or.inr ⟨nofun, hput⟩)
        | shutdown => exact Or.inr (Or.inr ⟨nofun, hput⟩)
        | own j =>
            by_cases hj : k = j
            · subst hj
              rw [put, List.getElem?_set_self (List.getElem?_eq_some_iff.1 hx).1] at hput
              exact Or.inl ⟨rfl, (Option.some.inj hput).symm⟩
            · rw [put, List.getElem?_set_ne (Ne.symm hj)] at hput
              exact Or.inr (Or.inr ⟨fun heq => hj (Party.own.inj heq), hput⟩)
      · exact Or.inr (Or.inl ⟨k, job, rfl, rfl⟩)

/-- The tasks that have not ended are counted as they begin and end. -/
theorem countP_alive_take (hx : s.strand? party = some x) (halive : x.isDone = false) :
    (s.take party m).own.countP (!·.isDone) + (party.isOwn && m.strand.isDone).toNat =
      s.own.countP (!·.isDone) + m.begun.length := by
  have htake : (s.take party m).own = (s.put party m.strand).own ++ fresh m.begun := rfl
  rw [htake, List.countP_append, countP_alive_fresh]
  cases party with
  | start => rfl
  | shutdown => rfl
  | own k =>
      obtain ⟨rest, hown, hset, -⟩ := exists_set_perm hx
      rw [put, (hset _).countP_eq, hown.countP_eq, countP_cons_toNat, countP_cons_toNat, halive,
        Party.isOwn]
      cases m.strand.isDone
      · simp
      · simp only [Bool.not_true, Bool.toNat_false, Bool.not_false, Bool.toNat_true, Bool.and_self]
        omega

/-- A task that has not ended is counted. -/
theorem Sound.tasks_pos (h : s.Sound) (hx : s.strand? party = some x) (halive : x.isDone = false)
    (hown : party.isOwn = true) : 0 < s.running.tasks := by
  cases party with
  | start => cases hown
  | shutdown => cases hown
  | own k =>
      rw [← h.tasks, List.countP_pos_iff]
      exact ⟨x, List.mem_of_getElem? hx, by rw [halive]; rfl⟩

theorem emptied_take (s : Lifespan) (party : Party) (m : Strand.Move) : (s.take party m).emptied =
    if party = .shutdown then m.strand.stake.emptied else s.emptied := by
  cases party <;> rfl

theorem Sound.lock_of_perm (h : s.Sound) {rest : List Strand} (hperm : s.strands.Perm (x :: rest)) :
    x.stake.holds.toNat + rest.countP (·.stake.holds) = s.running.locked.toNat := by
  rw [← h.lock, hperm.countP_eq, countP_cons_toNat]

/-- The lock is with one task only. -/
theorem Sound.holds_eq_false_of_ne (h : s.Sound) (hx : s.strand? party = some x)
    (hne : other ≠ party) (hy : s.strand? other = some y) (hholds : y.stake.holds = true) :
    x.stake.holds = false := by
  obtain ⟨rest, hperm, -, hothers⟩ := exists_rest hx
  have hlock := h.lock_of_perm hperm
  have hpos : 0 < rest.countP (·.stake.holds) :=
    List.countP_pos_iff.2 ⟨y, hothers other y hne hy, hholds⟩
  have hle : s.running.locked.toNat ≤ 1 := Bool.toNat_le _
  exact Bool.toNat_eq_zero.1 (by omega)

/-! What one turn does to each clause. -/

section

variable (h : s.Sound) (hx : s.strand? party = some x)
  (hgoes : x.Goes party s.running s.live m)

include h hx hgoes

/-- No number is given out twice, and what stands is accounted for. -/
theorem Sound.accounts_take : ((s.take party m).live.map (·.id)).Nodup ∧
    ((s.take party m).live.map (·.id)).Perm ((s.take party m).running.recorded ++
      (s.take party m).strands.flatMap (·.stake.owed)) := by
  obtain ⟨rest, hperm, htake, -⟩ := exists_rest hx
  have hbefore : (s.live.map (·.id)).Perm
      (s.running.recorded ++ x.stake.owed ++ rest.flatMap (·.stake.owed)) := by
    refine h.accounts.trans ?_
    rw [List.append_assoc]
    exact (hperm.flatMap_right _).append_left _
  obtain ⟨hids, haccounts⟩ := hgoes.changes.accounts (rest.flatMap (·.stake.owed)) h.ids hbefore
  refine ⟨hids, haccounts.trans ?_⟩
  rw [List.append_assoc]
  refine List.Perm.append_left _ (List.Perm.trans ?_ ((htake m).flatMap_right _).symm)
  rw [List.flatMap_cons, List.flatMap_append, flatMap_owed_fresh, List.append_nil]

theorem Sound.lock_take : (s.take party m).strands.countP (·.stake.holds) =
    (s.take party m).running.locked.toNat := by
  obtain ⟨rest, hperm, htake, -⟩ := exists_rest hx
  rw [(htake m).countP_eq, countP_cons_toNat, List.countP_append, countP_holds_fresh, Nat.add_zero]
  exact hgoes.changes.lock _ (h.lock_of_perm hperm)

theorem Sound.registration_take (hparty : party ≠ .start) (hnone : s.running.registration = none) :
    (s.take party m).running.registration = none := by
  refine registration_eq_none hgoes.changes (fun hfills => hparty ?_) hnone
  exact ((h.fits party x hx).fills hfills).2 rfl

theorem Sound.fits_take (hy : (s.take party m).strand? other = some y) :
    y.Fits (s.take party m).running other := by
  rcases strand?_take hx hy with ⟨rfl, rfl⟩ | ⟨k, job, rfl, rfl⟩ | ⟨hne, hy⟩
  · exact hgoes.fits
  · exact .works rfl rfl
  · refine (h.fits _ _ hy).congr hgoes.changes.stays ?_ fun hholds => ?_
    · rintro rfl
      exact h.registration_take hx hgoes (Ne.symm hne)
    · exact hgoes.changes.regions (h.holds_eq_false_of_ne hx hne hy hholds)

theorem Sound.unstarted_take (hnone : (s.take party m).start = none) :
    (s.take party m).running.started = false ∧
      (s.take party m).running.registration = none := by
  have hparty : party ≠ .start := by
    rintro rfl
    cases hnone
  have hstart : s.start = none := by
    cases party with
    | start => exact absurd rfl hparty
    | shutdown => exact hnone
    | own k => exact hnone
  obtain ⟨hstarted, hregistration⟩ := h.unstarted hstart
  exact ⟨hgoes.changes.started.trans hstarted, h.registration_take hx hgoes hparty hregistration⟩

theorem Sound.stopped_take :
    (s.take party m).running.stopped = (s.take party m).shutdown.isSome := by
  rw [show (s.take party m).running.stopped = s.running.stopped from hgoes.changes.stopped,
    h.stopped]
  cases party with
  | start => rfl
  | shutdown =>
      rw [show s.shutdown = some x from hx]
      rfl
  | own k => rfl

/-- Where a record is emptied there are no tasks, and a shutdown has begun. -/
theorem Sound.idle_of_emptied_take (hemptied : (s.take party m).emptied ≠ []) :
    s.running.tasks = 0 ∧ s.running.stopped = true := by
  rw [emptied_take] at hemptied
  rw [h.stopped]
  split at hemptied
  · next hparty =>
      subst hparty
      have hx : s.shutdown = some x := hx
      have hbefore : s.emptied = x.stake.emptied := by
        rw [emptied, hx]
        rfl
      refine ⟨?_, by rw [hx]; rfl⟩
      rcases hgoes.changes.quiet rfl hemptied with hearlier | hquiet
      · exact h.quiet (hbefore ▸ hearlier)
      · exact hquiet
  · refine ⟨h.quiet hemptied, ?_⟩
    by_contra hnone
    rw [Bool.not_eq_true, Option.isSome_eq_false_iff, Option.isNone_iff_eq_none] at hnone
    rw [emptied, hnone] at hemptied
    exact hemptied rfl

theorem Sound.quiet_take (hemptied : (s.take party m).emptied ≠ []) :
    (s.take party m).running.tasks = 0 := by
  obtain ⟨hquiet, hstopped⟩ := h.idle_of_emptied_take hx hgoes hemptied
  have hcount : (s.take party m).running.tasks + (party.isOwn && m.strand.isDone).toNat =
      s.running.tasks + m.begun.length := hgoes.tasks
  rw [hquiet, hgoes.begun hstopped] at hcount
  exact Nat.eq_zero_of_add_eq_zero_right hcount

theorem Sound.tasks_take (halive : x.isDone = false) :
    (s.take party m).own.countP (!·.isDone) = (s.take party m).running.tasks := by
  have hcount : (s.take party m).running.tasks + (party.isOwn && m.strand.isDone).toNat =
      s.running.tasks + m.begun.length := hgoes.tasks
  have halive' := countP_alive_take (m := m) hx halive
  rw [h.tasks, ← hcount] at halive'
  exact Nat.add_right_cancel halive'

theorem Sound.take (halive : x.isDone = false) : (s.take party m).Sound where
  consistent := hgoes.changes.stays.consistent
  ids := (h.accounts_take hx hgoes).1
  accounts := (h.accounts_take hx hgoes).2
  lock := h.lock_take hx hgoes
  tasks := h.tasks_take hx hgoes halive
  fits _ _ hy := h.fits_take hx hgoes hy
  unstarted hnone := h.unstarted_take hx hgoes hnone
  stopped := h.stopped_take hx hgoes
  quiet hemptied := h.quiet_take hx hgoes hemptied

end

/-! The calls begin. -/

theorem act_start (hnone : s.start = none) (hstarted : s.running.started = false) :
    s.act σ .start = { s with
      running := { s.running with started := true }
      start := some (.waits (.call .announce)) } := by
  rw [act, hnone, if_neg (by simp), Instance.start, hstarted, if_neg (by simp), take, put]
  simp only [Task.callStep, Call.waitAt, Strand.Move.ofStep, List.map_nil, List.append_nil]
  rfl

theorem act_shutdown (hnone : s.shutdown = none) :
    s.act σ .shutdown = { s with
      running := { s.running with stopped := true }
      shutdown := some (.waits (.call .stop)) } := by
  rw [act, hnone, if_neg (by simp), Instance.shutdown, take, put]
  simp only [Task.callStep, Call.waitAt, Strand.Move.ofStep, List.map_nil, List.append_nil]
  rfl

theorem Sound.act_start (h : s.Sound) : (s.act σ .start).Sound := by
  cases hstart : s.start with
  | some y =>
      rw [act, hstart, if_pos (by simp)]
      exact h
  | none =>
      obtain ⟨hstarted, hregistration⟩ := h.unstarted hstart
      rw [Lifespan.act_start hstart hstarted]
      refine ⟨h.consistent, h.ids, h.accounts.trans (.of_eq ?_), Eq.trans ?_ h.lock, h.tasks, ?_,
        nofun, h.stopped, h.quiet⟩
      · simp only [strands, hstart, List.flatMap_append]
        rfl
      · simp only [strands, hstart, List.countP_append]
        rfl
      · intro party y hy
        cases party with
        | start =>
            cases hy
            exact .waits (.announce hregistration)
        | shutdown =>
            exact (h.fits .shutdown y hy).congr (.refl h.consistent) nofun fun _ _ hregion => hregion
        | own k =>
            exact (h.fits (.own k) y hy).congr (.refl h.consistent) nofun fun _ _ hregion => hregion

theorem Sound.act_shutdown (h : s.Sound) : (s.act σ .shutdown).Sound := by
  cases hshutdown : s.shutdown with
  | some y =>
      rw [act, hshutdown, if_pos (by simp)]
      exact h
  | none =>
      rw [Lifespan.act_shutdown hshutdown]
      refine ⟨h.consistent, h.ids, h.accounts.trans (.of_eq ?_), Eq.trans ?_ h.lock, h.tasks, ?_,
        h.unstarted, rfl, fun hemptied => absurd rfl hemptied⟩
      · simp only [strands, hshutdown, List.flatMap_append]
        rfl
      · simp only [strands, hshutdown, List.countP_append]
        rfl
      · intro party y hy
        cases party with
        | start =>
            exact (h.fits .start y hy).congr (.refl h.consistent) (fun _ hnone => hnone)
              fun _ _ hregion => hregion
        | shutdown =>
            cases hy
            exact .waits .stop
        | own k =>
            exact (h.fits (.own k) y hy).congr (.refl h.consistent) nofun fun _ _ hregion => hregion

theorem Sound.of_step (h : s.Sound) {operation : Peer.Operation}
    (hkeeps : operation.retracks = false) :
    Sound { s with
      running := { s.running with peer := (s.running.peer.step σ operation).1 } } := by
  have hstays : s.running.peer.Stays (s.running.peer.step σ operation).1 :=
    .step h.consistent operation
  have hsubscriptions := (Peer.records_step (σ := σ) s.running.peer hkeeps).2.1
  refine ⟨hstays.consistent, h.ids, ?_, h.lock, h.tasks, ?_, h.unstarted, h.stopped, h.quiet⟩
  · rw [Instance.recorded, Instance.kept, Instance.kept, hsubscriptions]
    exact h.accounts
  · intro party y hy
    refine (h.fits party y hy).congr hstays (fun _ hnone => hnone) fun _ region hregion => ?_
    dsimp only
    rw [hsubscriptions]
    exact hregion

theorem isDone_of_next {i : Instance} {live : List Registration} {now : Nat} {turn : Strand.Turn}
    (hnext : x.next σ i live now turn = some m) : x.isDone = false := by
  cases x with
  | waits task => rfl
  | heard task input => rfl
  | done result => cases turn <;> cases hnext

/-- A turn takes a task on, or is not possible. -/
theorem Sound.turn_cases (h : s.Sound) (party : Party) (turn : Strand.Turn) (now : Nat) :
    s.act σ (.turn party turn now) = s ∨ ∃ x m, s.strand? party = some x ∧ x.isDone = false ∧
      s.act σ (.turn party turn now) = s.take party m ∧ x.Goes party s.running s.live m := by
  rw [act]
  cases hx : s.strand? party with
  | none => exact Or.inl rfl
  | some x =>
      rw [Option.bind_some]
      cases hnext : x.next σ s.running s.live now turn with
      | none => exact Or.inl rfl
      | some m =>
          have halive := isDone_of_next hnext
          exact Or.inr ⟨x, m, rfl, halive, rfl, Strand.goes_of_next (h.fits party x hx) h.consistent
            (h.tasks_pos hx halive) hnext⟩

theorem Sound.act (h : s.Sound) (action : Action) : (s.act σ action).Sound := by
  cases action with
  | start => exact h.act_start
  | shutdown => exact h.act_shutdown
  | turn party turn now =>
      rcases h.turn_cases (σ := σ) party turn now with hsame | ⟨x, m, hx, halive, hact, hgoes⟩
      · rw [hsame]
        exact h
      · rw [hact]
        exact h.take hx hgoes halive
  | other operation =>
      rw [Lifespan.act]
      split
      · exact h
      · next hkeeps => exact h.of_step (by simpa using hkeeps)

theorem Sound.run (h : s.Sound) (actions : List Action) : (s.run σ actions).Sound := by
  induction actions generalizing s with
  | nil => exact h
  | cons action actions ih => exact ih (h.act action)

/-! What is recorded once the shutdown has looked. -/

/-- How the records stand after an action: the shutdown goes on, and what it has emptied is filled by
the start alone. -/
structure Follows (s after : Lifespan) (handler : Handler) : Prop where
  emptied : handler ∈ s.emptied → handler ∈ after.emptied
  newly : handler ∈ after.emptied → handler ∈ s.emptied ∨ after.running.kept handler = []
  kept : handler ∈ s.emptied →
    after.running.kept handler = s.running.kept handler ∨ s.filling = some handler
  filled : s.filling = some handler →
    after.filling = some handler ∨ after.running.kept handler ≠ []

theorem Follows.of_eq {after : Lifespan} (hemptied : after.emptied = s.emptied)
    (hkept : after.running.kept handler = s.running.kept handler)
    (hfilling : s.filling = some handler → after.filling = some handler) :
    Follows s after handler := by
  refine ⟨?_, ?_, fun _ => Or.inl hkept, fun hfilling' => Or.inl (hfilling hfilling')⟩
  · rw [hemptied]
    exact fun hmem => hmem
  · rw [hemptied]
    exact Or.inl

theorem Sound.follows_take (h : s.Sound) (hx : s.strand? party = some x)
    (halive : x.isDone = false) (hgoes : x.Goes party s.running s.live m) (handler : Handler) :
    Follows s (s.take party m) handler := by
  have hchanges := hgoes.changes
  cases party with
  | start =>
      have hfilling : s.filling = x.stake.fills := by
        rw [filling, show s.start = some x from hx]
        rfl
      refine ⟨fun hmem => hmem, Or.inl, ?_, ?_⟩
      · intro _
        rw [hfilling]
        rcases hchanges.kept handler with hsame | hfills | ⟨hcontra, -⟩
        · exact Or.inl hsame
        · exact Or.inr hfills
        · cases hcontra
      · rw [hfilling]
        exact hchanges.filled handler
  | shutdown =>
      have hemptied : s.emptied = x.stake.emptied := by
        rw [Lifespan.emptied, show s.shutdown = some x from hx]
        rfl
      refine ⟨?_, ?_, ?_, fun hfilling => Or.inl hfilling⟩
      · rw [hemptied]
        exact (hchanges.emptied rfl handler).1
      · rw [hemptied]
        exact (hchanges.emptied rfl handler).2
      · intro hmem
        rcases hchanges.kept handler with hsame | hfills | ⟨-, hnot, -⟩
        · exact Or.inl hsame
        · exact absurd rfl ((h.fits .shutdown x hx).fills hfills).1
        · exact absurd (hemptied ▸ hmem) hnot
  | own k =>
      refine ⟨fun hmem => hmem, Or.inl, ?_, fun hfilling => Or.inl hfilling⟩
      intro hmem
      -- Before it empties anything, the shutdown waits for the tasks to end.
      have hpos := h.tasks_pos hx halive rfl
      rw [h.quiet (List.ne_nil_of_mem hmem)] at hpos
      cases hpos

theorem Sound.follows_act (h : s.Sound) (action : Action) (handler : Handler) :
    Follows s (s.act σ action) handler := by
  cases action with
  | start =>
      cases hstart : s.start with
      | some y =>
          rw [Lifespan.act, hstart, if_pos (by simp)]
          exact .of_eq rfl rfl fun hfilling => hfilling
      | none =>
          rw [Lifespan.act_start hstart (h.unstarted hstart).1]
          refine .of_eq rfl (by cases handler <;> rfl) ?_
          rw [filling, hstart]
          nofun
  | shutdown =>
      cases hshutdown : s.shutdown with
      | some y =>
          rw [Lifespan.act, hshutdown, if_pos (by simp)]
          exact .of_eq rfl rfl fun hfilling => hfilling
      | none =>
          rw [Lifespan.act_shutdown hshutdown]
          refine .of_eq ?_ (by cases handler <;> rfl) fun hfilling => hfilling
          rw [Lifespan.emptied, Lifespan.emptied, hshutdown]
          rfl
  | turn party turn now =>
      rcases h.turn_cases (σ := σ) party turn now with hsame | ⟨x, m, hx, halive, hact, hgoes⟩
      · rw [hsame]
        exact .of_eq rfl rfl fun hfilling => hfilling
      · rw [hact]
        exact h.follows_take hx halive hgoes handler
  | other operation =>
      rw [Lifespan.act]
      split
      · exact .of_eq rfl rfl fun hfilling => hfilling
      · next hkeeps =>
          have hretracks : operation.retracks = false := by simpa using hkeeps
          have hsubscriptions := (Peer.records_step (σ := σ) s.running.peer hretracks).2.1
          refine .of_eq rfl ?_ fun hfilling => hfilling
          cases handler with
          | player => rfl
          | discovery => exact congrArg (List.map Prod.snd) hsubscriptions

/-- As long as the start is not late, what the shutdown has emptied stays so. -/
theorem Sound.kept_of_never (h : s.Sound) (actions : List Action)
    (hempty : handler ∈ s.emptied → s.running.kept handler = [])
    (hnever : ∀ before after, actions = before ++ after → ¬ (s.run σ before).Late handler)
    (hemptied : handler ∈ (s.run σ actions).emptied) :
    (s.run σ actions).running.kept handler = [] := by
  induction actions generalizing s with
  | nil => exact hempty hemptied
  | cons action actions ih =>
      have hfollows := h.follows_act (σ := σ) action handler
      refine ih (h.act action) ?_ ?_ hemptied
      · intro hafter
        rcases hfollows.newly hafter with hmem | hnone
        · rcases hfollows.kept hmem with hsame | hfilling
          · rw [hsame, hempty hmem]
          · exact absurd ⟨hmem, hfilling⟩ (hnever [] _ rfl)
        · exact hnone
      · intro before after hactions
        exact hnever (action :: before) after (by rw [hactions]; rfl)

/-- What the start was late to record, it has recorded in the end. -/
theorem Sound.kept_of_late (h : s.Sound) (actions : List Action) (hemptied : handler ∈ s.emptied)
    (hlate : s.filling = some handler ∨ s.running.kept handler ≠ [])
    (hover : (s.run σ actions).filling = none) : (s.run σ actions).running.kept handler ≠ [] := by
  induction actions generalizing s with
  | nil =>
      rcases hlate with hfilling | hkept
      · rw [show s.filling = none from hover] at hfilling
        cases hfilling
      · exact hkept
  | cons action actions ih =>
      have hfollows := h.follows_act (σ := σ) action handler
      refine ih (h.act action) (hfollows.emptied hemptied) ?_ hover
      rcases hlate with hfilling | hkept
      · exact hfollows.filled hfilling
      · rcases hfollows.kept hemptied with hsame | hfilling
        · rw [hsame]
          exact Or.inr hkept
        · exact hfollows.filled hfilling

/-! Both calls are over. -/

theorem run_append (σ : Scheme) (s : Lifespan) (before after : List Action) :
    s.run σ (before ++ after) = (s.run σ before).run σ after :=
  List.foldl_append

/-- Both calls have returned. -/
def isOver (s : Lifespan) : Bool :=
  s.start.any (·.isDone) && s.shutdown.any (·.isDone)

/-- Neither call fails. -/
theorem Sound.results (h : s.Sound) (hover : s.isOver = true) :
    s.start = some (.done (.called (.ok ()))) ∧ s.shutdown = some (.done (.called (.ok ()))) := by
  rw [isOver, Bool.and_eq_true, Option.any_eq_true, Option.any_eq_true] at hover
  obtain ⟨⟨x, hx, hstarted⟩, y, hy, hstopped⟩ := hover
  constructor
  · cases h.fits .start x hx with
    | started => exact hx
    | waits => cases hstarted
    | heard => cases hstarted
  · cases h.fits .shutdown y hy with
    | stopped => exact hy
    | waits => cases hstopped
    | heard => cases hstopped

/-- When both calls are over, so are all tasks, and what stands is on record. -/
theorem Sound.live_of_over (h : s.Sound) (hover : s.isOver = true) :
    (s.live.map (·.id)).Perm s.running.recorded := by
  obtain ⟨hstart, hshutdown⟩ := h.results hover
  have hquiet : s.running.tasks = 0 := by
    apply h.quiet
    rw [emptied, hshutdown]
    exact List.cons_ne_nil _ _
  have hown : ∀ x ∈ s.own, x.isDone = true := by
    intro x hx
    have hnone := List.countP_eq_zero.1 (h.tasks.trans hquiet) x hx
    simpa using hnone
  have hdone : ∀ x ∈ s.strands, x.isDone = true := by
    intro x hx
    rw [strands, hstart, hshutdown] at hx
    rcases List.mem_append.1 hx with hx | hx
    · rcases List.mem_append.1 hx with hx | hx
      · rw [List.mem_singleton.1 hx]
        rfl
      · rw [List.mem_singleton.1 hx]
        rfl
    · exact hown x hx
  have howed : s.strands.flatMap (·.stake.owed) = [] := by
    rw [List.flatMap_eq_nil_iff]
    intro x hx
    have hx := hdone x hx
    cases x with
    | waits task => cases hx
    | heard task input => cases hx
    | done result => rfl
  have haccounts := h.accounts
  rw [howed, List.append_nil] at haccounts
  exact haccounts

/-- A record is empty in the end just if the start was never late for it. -/
theorem Sound.kept_eq_nil_iff (h : s.Sound) (hfirst : s.emptied = []) (actions : List Action)
    (hemptied : handler ∈ (s.run σ actions).emptied) (hover : (s.run σ actions).filling = none) :
    (s.run σ actions).running.kept handler = [] ↔
      ∀ before after, actions = before ++ after → ¬ (s.run σ before).Late handler := by
  constructor
  · rintro hkept before after rfl ⟨hmem, hfilling⟩
    rw [run_append] at hkept hover
    exact (h.run before).kept_of_late after hmem (Or.inl hfilling) hover hkept
  · intro hnever
    refine h.kept_of_never actions ?_ hnever hemptied
    rw [hfirst]
    nofun

/-- Calls that track leaves may have been made of the instance before, and are over. -/
theorem Sound.ofSession {session : Session} (h : session.Sound) (hi : session.running.Unstarted)
    (hover : ∀ slot ∈ session.calls, ∃ result, slot = .done result) :
    (ofInstance session.running session.live).Sound := by
  obtain ⟨hfree, hperm⟩ := h.free_of_over hover
  have hids : session.running.recorded = session.running.peer.registrations.map (·.id) := by
    rw [Instance.recorded, Instance.kept, Instance.kept, hi.registration, Peer.registrations,
      List.map_map]
    rfl
  refine ⟨h.concordant.consistent, h.ids, ?_, ?_, hi.tasks.symm, ?_,
    fun _ => ⟨hi.started, hi.registration⟩, hi.stopped, fun hemptied => absurd rfl hemptied⟩
  · refine (hperm.map _).trans (.of_eq ?_)
    rw [← hids]
    exact (List.append_nil _).symm
  · rw [show (ofInstance session.running session.live).running.locked = false from hfree]
    rfl
  · intro party x hx
    cases party <;> cases hx

/-- One start and one shutdown of an instance that may track leaves, in whatever order their turns
and those of the tasks come, over a transport that does all it is asked to. Both calls succeed, and
what then stands at the transport is what the instance has on record. That is nothing just if the
start was never late: the shutdown does not wait for a start that is on its way or still to come, and
a registration that the start records after the shutdown has emptied the record stays. -/
theorem released_iff_never_late {config : Config} {id : String} {position : Point} {secret : Bytes}
    {peer : Peer} (hmake : Peer.make config id position secret = .ok (.ok peer))
    (calls : List RegionSync.Action)
    (hcalls : ∀ slot ∈ ((Session.ofPeer peer).run σ calls).calls, ∃ result, slot = .done result)
    (actions : List Action) :
    let session := (Session.ofPeer peer).run σ calls
    let first := ofInstance session.running session.live
    let s := first.run σ actions
    s.isOver = true →
      (s.start = some (.done (.called (.ok ()))) ∧ s.shutdown = some (.done (.called (.ok ())))) ∧
      (s.live.map (·.id)).Perm (s.running.kept .player ++ s.running.kept .discovery) ∧
      (∀ handler, s.running.kept handler = [] ↔
        ∀ before after, actions = before ++ after → ¬ (first.run σ before).Late handler) ∧
      (s.live = [] ↔ ∀ handler before after, actions = before ++ after →
        ¬ (first.run σ before).Late handler) := by
  intro session first s hover
  have hsession := Session.Sound.make hmake
  have hfirst : first.Sound := .ofSession (hsession.run calls)
    (hsession.unstarted_run (Session.unstarted_ofPeer peer) calls) hcalls
  have hs : s.Sound := hfirst.run actions
  obtain ⟨hstart, hshutdown⟩ := hs.results hover
  have hlive := hs.live_of_over hover
  have hkept : ∀ handler, s.running.kept handler = [] ↔
      ∀ before after, actions = before ++ after → ¬ (first.run σ before).Late handler := by
    intro handler
    refine hfirst.kept_eq_nil_iff rfl actions ?_ ?_
    · rw [emptied, hshutdown]
      cases handler with
      | player => exact List.mem_cons_of_mem _ List.mem_cons_self
      | discovery => exact List.mem_cons_self
    · rw [filling, hstart]
      rfl
  refine ⟨⟨hstart, hshutdown⟩, hlive, hkept, ?_⟩
  have hnone : s.live = [] ↔ ∀ handler, s.running.kept handler = [] := by
    rw [← List.map_eq_nil_iff (f := Registration.id), ← List.perm_nil, hlive.congr_left, List.perm_nil,
      Instance.recorded, List.append_eq_nil_iff]
    constructor
    · rintro ⟨hplayer, hdiscovery⟩ handler
      cases handler with
      | player => exact hplayer
      | discovery => exact hdiscovery
    · exact fun hall => ⟨hall .player, hall .discovery⟩
  rw [hnone]
  exact forall_congr' hkept

/-- A shutdown after the start takes everything back; before the start it leaves everything to stay. -/
theorem released_iff_never_late_two_orders : ∃ config id position secret peer starting stopping,
    Peer.make config id position secret = .ok (.ok peer) ∧
      let first := ofInstance (.ofPeer peer) []
      let inOrder := first.run .sealing (starting ++ stopping)
      let reversed := first.run .sealing (stopping ++ starting)
      (inOrder.isOver = true ∧ inOrder.live = []) ∧
        reversed.isOver = true ∧ (reversed.live.map (·.id)).Perm [⟨1⟩, ⟨2⟩] ∧
          ¬ ∀ handler before after, stopping ++ starting = before ++ after →
            ¬ (first.run .sealing before).Late handler := by
  let config : Config := { hub := "/hub", depth := 2, worldBits := 2 }
  let starting : List Action := [.start, .turn .start (.answer ⟨1⟩) 0, .turn .start .resume 0,
    .turn .start .grant 0, .turn .start (.answer ⟨2⟩) 0, .turn .start .resume 0]
  let stopping : List Action := [.shutdown, .turn (.own 0) (.hear .turn) 0, .turn (.own 0) .resume 0,
    .turn (.own 1) (.hear .turn) 0, .turn (.own 1) .resume 0, .turn (.own 2) (.hear .turn) 0,
    .turn (.own 2) .resume 0, .turn .shutdown .grant 0, .turn .shutdown (.answer ⟨0⟩) 0,
    .turn .shutdown .resume 0, .turn .shutdown (.answer ⟨0⟩) 0, .turn .shutdown .resume 0]
  have hmade : (Peer.made? config "bob" ⟨.zero, .zero, .zero⟩ []).any (fun peer =>
      let first := ofInstance (.ofPeer peer) []
      let inOrder := first.run .sealing (starting ++ stopping)
      let reversed := first.run .sealing (stopping ++ starting)
      decide (inOrder.isOver = true ∧ inOrder.running.recorded = [] ∧ reversed.isOver = true ∧
        reversed.running.recorded = [⟨1⟩, ⟨2⟩])) = true := by
    decide +kernel
  obtain ⟨peer, hmake, hruns⟩ := Peer.exists_make hmade
  obtain ⟨hinOrder, hnone, hreversed, hkept⟩ := of_decide_eq_true hruns
  have hreleased : ∀ actions, let first := ofInstance (.ofPeer peer) []
      (first.run .sealing actions).isOver = true →
        ((first.run .sealing actions).live.map (·.id)).Perm
            (first.run .sealing actions).running.recorded ∧
          ((first.run .sealing actions).live = [] ↔ ∀ handler before after,
            actions = before ++ after → ¬ (first.run .sealing before).Late handler) := by
    intro actions first hover
    obtain ⟨-, hlive, -, hiff⟩ := released_iff_never_late (σ := .sealing) hmake []
      (fun _ hslot => absurd hslot List.not_mem_nil) actions hover
    exact ⟨hlive, hiff⟩
  have hempty := (hreleased _ hinOrder).1
  obtain ⟨hperm, hiff⟩ := hreleased _ hreversed
  rw [hnone, List.perm_nil, List.map_eq_nil_iff] at hempty
  rw [hkept] at hperm
  refine ⟨config, _, _, _, peer, starting, stopping, hmake, ⟨hinOrder, hempty⟩, hreversed, hperm, ?_⟩
  intro hnever
  rw [hiff.2 hnever] at hperm
  cases hperm.length_eq

end Lifespan

end RegionSync
