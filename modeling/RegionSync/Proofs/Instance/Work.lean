import RegionSync.Proofs.Instance.Stake

/-!
What a turn does, whoever's it is. Between its calls a task of the instance leaves registrations
alone. The number of tasks that the instance counts changes as they begin and end.
-/

namespace RegionSync

/-- A party's task as it can stand: in a call, between calls, or over. -/
inductive Strand.Fits (i : Instance) : Party → Strand → Prop
  | waits {party : Party} {c : Call} (h : c.Fits i party) : Fits i party (.waits (party.task c))
  | heard {party : Party} {c : Call} {signal : Signal} (h : c.Fits i party)
      (hsignal : c.Hears signal) : Fits i party (.heard (party.task c) (.call signal))
  | works {k : Nat} {task : Task} (hown : task.isOfHost = false) (hcall : task.call? = none) :
      Fits i (.own k) (.waits task)
  | turns {k : Nat} {task : Task} {input : Input} (hown : task.isOfHost = false)
      (hcall : task.call? = none) (hinput : input.signal? = none) :
      Fits i (.own k) (.heard task input)
  | ended {k : Nat} : Fits i (.own k) (.done .ended)
  | started : Fits i .start (.done (.called (.ok ())))
  | stopped : Fits i .shutdown (.done (.called (.ok ())))

/-- Only a start registers the player, and a shutdown registers nothing. -/
theorem Call.Fits.fills {i : Instance} {party : Party} {c : Call} (hc : c.Fits i party)
    {heard : Option Signal} {handler : Handler} (hfills : (c.stake heard).fills = some handler) :
    party ≠ .shutdown ∧ (handler = .player → party = .start) := by
  cases hc with
  | announce => exact ⟨nofun, fun _ => rfl⟩
  | track => cases hfills
  | subscribe hpurpose =>
      cases hfills
      refine ⟨?_, nofun⟩
      rintro rfl
      cases hpurpose
  | stop => cases hfills
  | clear => cases hfills
  | retire => cases hfills

/-- A call that fits goes on to do so while the peer stays, the registration that a start waits for
is not on record, and the region that it subscribes to is free. -/
theorem Call.Fits.congr {i i' : Instance} {party : Party} {c : Call} (hc : c.Fits i party)
    (hstays : i.peer.Stays i'.peer)
    (hplayer : party = .start → i.registration = none → i'.registration = none)
    (hregions : (c.stake none).holds = true → ∀ region,
      region ∉ i.peer.subscriptions.map (·.1) → region ∉ i'.peer.subscriptions.map (·.1)) :
    c.Fits i' party := by
  cases hc with
  | announce hnone => exact .announce (hplayer rfl hnone)
  | track hpurpose hleaf => exact .track hpurpose ((hstays.isLeaf _).trans hleaf)
  | subscribe hpurpose hleaf hregion =>
      refine .subscribe hpurpose ((hstays.isLeaf _).trans hleaf) ?_
      rw [Peer.subscriptionFor_congr hstays.identity]
      exact hregions rfl _ hregion
  | stop => exact .stop
  | clear id rest => exact .clear id rest
  | retire id => exact .retire id

/-- A call holds the lock whether or not it has heard of its registration. -/
theorem Call.holds_stake (c : Call) (heard : Option Signal) :
    (c.stake heard).holds = (c.stake none).holds := by
  cases c <;> rfl

/-! The work of a task between its calls. -/

namespace Task

variable {σ : Scheme} {i : Instance} {now : Nat}

/-- A task of the instance's own runs on, and has to do with no registration. -/
structure Works (i : Instance) (step : Step) : Prop where
  stays : i.peer.Stays step.after.peer
  subscriptions : step.after.peer.subscriptions = i.peer.subscriptions
  others : step.after = { i with peer := step.after.peer, tasks := step.after.tasks }
  stake : (Strand.ofProgress step.progress).stake = .nothing ∨
    (Strand.ofProgress step.progress).stake = .ended
  tasks : step.after.tasks + (Strand.ofProgress step.progress).isDone.toNat =
    i.tasks + step.begun.length
  begun : i.stopped = true → step.begun = []
  fits : ∀ k, (Strand.ofProgress step.progress).Fits step.after (.own k)

namespace Works

theorem of_peer {peer : Peer} {step : Step} (hstays : i.peer.Stays peer)
    (hsubscriptions : peer.subscriptions = i.peer.subscriptions)
    (h : Works { i with peer } step) : Works i step :=
  ⟨hstays.trans h.stays, h.subscriptions.trans hsubscriptions, h.others, h.stake, h.tasks, h.begun,
    h.fits⟩

/-- Operations that leave the tracking alone may come first. -/
theorem of_step {step : Step} (hconsistent : i.peer.Consistent) (operation : Peer.Operation)
    (hkeeps : operation.retracks = false)
    (h : Works { i with peer := (i.peer.step σ operation).1 } step) : Works i step :=
  h.of_peer (.step hconsistent operation) (Peer.records_step (σ := σ) i.peer hkeeps).2.1

theorem report {step : Step} (h : Works i step) (events : List Event) :
    Works i (step.report events []) :=
  ⟨h.stays, h.subscriptions, h.others, h.stake, h.tasks, h.begun, h.fits⟩

variable (hconsistent : i.peer.Consistent) (htasks : 0 < i.tasks)

include hconsistent

theorem waitAt {task : Task} (hown : task.isOfHost = false) (hcall : task.call? = none)
    (wait : Wait) : Works i (waitAt i task wait) := by
  refine ⟨.refl hconsistent, rfl, rfl, Or.inl ?_, rfl, fun _ => rfl, fun k => .works hown hcall⟩
  simp only [Task.waitAt, Strand.ofProgress, Strand.stake, hcall]
  rfl

include htasks

theorem endOwn : Works i (endOwn i) := by
  refine ⟨.refl hconsistent, rfl, rfl, Or.inr rfl, ?_, fun _ => rfl, fun k => .ended⟩
  exact Nat.sub_add_cancel htasks

theorem pauseFor (loop : Loop) (milliseconds : Nat) : Works i (pauseFor i loop milliseconds) := by
  unfold Task.pauseFor
  split
  · exact endOwn hconsistent htasks
  · exact waitAt hconsistent rfl rfl _

theorem sweepNext (since : Nat) (targets : List Discovery.Target) :
    Works i (sweepNext i now (some since) targets) := by
  unfold Task.sweepNext
  split
  · exact pauseFor hconsistent htasks _ _
  · split
    · exact endOwn hconsistent htasks
    · exact waitAt hconsistent rfl rfl _

theorem beginPoll (since : Nat) : Works i (beginPoll i now (some since)) := by
  refine of_step (σ := .sealing) hconsistent .polls rfl ?_
  have hconsistent' : i.peer.polls.peer.Consistent := hconsistent.step (σ := .sealing) .polls
  rw [Task.beginPoll]
  dsimp only
  split
  · exact endOwn (i := { i with peer := i.peer.polls.peer }) hconsistent' htasks
  · split
    · exact endOwn (i := { i with peer := i.peer.polls.peer }) hconsistent' htasks
    · split
      · exact pauseFor (i := { i with peer := i.peer.polls.peer }) hconsistent' htasks _ _
      · exact waitAt (i := { i with peer := i.peer.polls.peer }) hconsistent' rfl rfl _

/-- The polling loop begins a task for each render tag that it asks for. -/
theorem beginPollingPass : Works i (beginPollingPass i now) := by
  have hconsistent' : i.peer.tagRequests.peer.Consistent :=
    hconsistent.step (σ := .sealing) .tagRequests
  have hworks : ∀ tasks, 0 < tasks → Works { i with peer := i.peer.tagRequests.peer, tasks }
      (Task.beginPoll { i with peer := i.peer.tagRequests.peer, tasks } now (some now)) :=
    fun tasks hpositive => beginPoll hconsistent' hpositive now
  refine of_step (σ := .sealing) hconsistent .tagRequests rfl ?_
  rw [Task.beginPollingPass, Instance.takeOn]
  dsimp only
  split
  · exact (hworks i.tasks htasks).report []
  · next hrunning =>
      obtain ⟨hstays, hsubscriptions, hothers, hstake, hcount, hbegun, hfits⟩ :=
        hworks (i.tasks + _) (Nat.add_pos_left htasks _)
      refine ⟨hstays, hsubscriptions, ?_, hstake, ?_, fun hstopped => absurd hstopped hrunning, hfits⟩
      · exact hothers
      · refine hcount.trans ?_
        rw [Task.Step.report, List.length_append, List.length_map, Nat.add_assoc]

/-- The publishing loop goes on to track the leaf that the player came into, or pauses. -/
theorem publishOnce : Works i (publishStep i.publishOnce) := by
  have hconsistent' : i.peer.publish.peer.Consistent := hconsistent.step (σ := .sealing) .publish
  have hends : Works { i with peer := i.peer.publish.peer }
      (publishStep (Call.endWith { i with peer := i.peer.publish.peer } (.ok ()))) :=
    (pauseFor (i := { i with peer := i.peer.publish.peer }) hconsistent' htasks _ _).report []
  refine of_step (σ := .sealing) hconsistent .publish rfl ?_
  rw [Instance.publishOnce, Call.published]
  split
  · next heq =>
      obtain ⟨rfl, -⟩ := Prod.mk.inj heq
      rw [Call.beginTrack]
      split
      · next leaf _ hleaf =>
          exact ⟨.refl hconsistent', rfl, rfl, Or.inl rfl, rfl, fun _ => rfl,
            fun k => .waits (.track rfl hleaf)⟩
      · exact hends
  · next heq =>
      obtain ⟨rfl, -⟩ := Prod.mk.inj heq
      exact hends

theorem beginPass (loop : Loop) : Works i (beginPass i now loop) := by
  cases loop with
  | discovery => exact sweepNext hconsistent htasks _ _
  | polling => exact beginPollingPass hconsistent htasks
  | publishing => exact publishOnce hconsistent htasks

theorem beginJob (job : Job) : Works i (beginJob i now job) := by
  unfold Task.beginJob
  split
  · exact pauseFor hconsistent htasks _ _
  · exact beginPass hconsistent htasks _
  · split
    · exact endOwn hconsistent htasks
    · exact waitAt hconsistent rfl rfl _

/-- A sweep takes an answer in, or goes on without it. -/
theorem resume_sweep {since : Nat} {rest : List Discovery.Target} {input : Input}
    (hinput : input.signal? = none) : Works i ((sweep (some since) rest).resume σ i now input) := by
  cases input with
  | turn => exact waitAt hconsistent rfl rfl _
  | call signal => cases hinput
  | heard about heard =>
      cases heard with
      | response r =>
          have hlearned : Works { i with peer := (i.peer.learn σ r).peer }
              (Task.sweepNext { i with peer := (i.peer.learn σ r).peer } now (some since) rest) :=
            sweepNext (i := { i with peer := (i.peer.learn σ r).peer })
              (hconsistent.step (σ := σ) (.learn r)) htasks since rest
          exact of_step (σ := σ) hconsistent (.learn r) rfl (hlearned.report _)
      | silence => exact sweepNext hconsistent htasks since rest
      | failure e => exact sweepNext hconsistent htasks since rest
      | broken => exact endOwn hconsistent htasks
  | awake => exact waitAt hconsistent rfl rfl _
  | stop => exact endOwn hconsistent htasks

omit htasks in
theorem stays_heardPoll (name : EntityName) (heard : Heard) :
    i.peer.Stays (heardPoll σ i.peer name heard).peer ∧
      (heardPoll σ i.peer name heard).peer.subscriptions = i.peer.subscriptions := by
  have hstep : ∀ operation : Peer.Operation, operation.retracks = false →
      i.peer.Stays (i.peer.step σ operation).1 ∧
        (i.peer.step σ operation).1.subscriptions = i.peer.subscriptions :=
    fun operation hkeeps => ⟨.step hconsistent operation, (Peer.records_step i.peer hkeeps).2.1⟩
  cases heard with
  | response r => exact hstep (.hear name r) rfl
  | silence => exact hstep (.miss name) rfl
  | failure e => exact hstep (.miss name) rfl
  | broken => exact ⟨.refl hconsistent, rfl⟩

theorem resume_poll {since : Nat} {out : List EntityName} {input : Input}
    (hinput : input.signal? = none) : Works i ((poll (some since) out).resume σ i now input) := by
  cases input with
  | turn => exact waitAt hconsistent rfl rfl _
  | call signal => cases hinput
  | heard about heard =>
      cases about with
      | none => exact waitAt hconsistent rfl rfl _
      | some name =>
          obtain ⟨hstays, hsubscriptions⟩ := stays_heardPoll (σ := σ) hconsistent name heard
          refine of_peer hstays hsubscriptions (Works.report ?_ _)
          split
          · exact endOwn (i := { i with peer := _ }) hstays.consistent htasks
          · split
            · exact pauseFor (i := { i with peer := _ }) hstays.consistent htasks _ _
            · exact waitAt (i := { i with peer := _ }) hstays.consistent rfl rfl _
  | awake => exact waitAt hconsistent rfl rfl _
  | stop => exact endOwn hconsistent htasks

/-- Whatever a task hears between its calls. -/
theorem resume {task : Task} {input : Input} (hown : task.isOfHost = false)
    (hcall : task.call? = none) (hinput : input.signal? = none) :
    Works i (task.resume σ i now input) := by
  cases task with
  | begin job =>
      cases input with
      | turn => exact beginJob hconsistent htasks job
      | call signal => cases hinput
      | heard about heard => exact waitAt hconsistent rfl rfl _
      | awake => exact waitAt hconsistent rfl rfl _
      | stop => exact waitAt hconsistent rfl rfl _
  | sweep pass rest =>
      cases pass with
      | none => cases hown
      | some since => exact resume_sweep hconsistent htasks hinput
  | poll pass out =>
      cases pass with
      | none => cases hown
      | some since => exact resume_poll hconsistent htasks hinput
  | pause loop =>
      cases input with
      | turn => exact waitAt hconsistent rfl rfl _
      | call signal => cases hinput
      | heard about heard => exact waitAt hconsistent rfl rfl _
      | awake => exact beginPass hconsistent htasks loop
      | stop => exact endOwn hconsistent htasks
  | publish c => cases hcall
  | tag name =>
      cases input with
      | turn => exact waitAt hconsistent rfl rfl _
      | call signal => cases hinput
      | heard about heard =>
          cases heard with
          | response r => exact (endOwn hconsistent htasks).report _
          | silence => exact endOwn hconsistent htasks
          | failure e => exact endOwn hconsistent htasks
          | broken => exact endOwn hconsistent htasks
      | awake => exact waitAt hconsistent rfl rfl _
      | stop => exact endOwn hconsistent htasks
  | call c => cases hcall

end Works

end Task

/-! A turn. -/

def Party.isOwn : Party → Bool
  | own _ => true
  | _ => false

/-- What a turn of a party's task does. -/
structure Strand.Goes (party : Party) (i : Instance) (live : List Registration) (x : Strand)
    (m : Strand.Move) : Prop where
  changes : Stake.Changes party i live x.stake m.after m.live m.strand.stake
  fits : m.strand.Fits m.after party
  tasks : m.after.tasks + (party.isOwn && m.strand.isDone).toNat = i.tasks + m.begun.length
  begun : i.stopped = true → m.begun = []

theorem Party.stake_waits (party : Party) (c : Call) :
    (Strand.waits (party.task c)).stake = c.stake none := by
  rw [Strand.stake, call?_task]
  rfl

theorem Party.stake_heard (party : Party) (c : Call) (signal : Signal) :
    (Strand.heard (party.task c) (.call signal)).stake = c.stake (some signal) := by
  rw [Strand.stake, call?_task]
  rfl

theorem Strand.Fits.fills {i : Instance} {party : Party} {x : Strand} (hx : x.Fits i party)
    {handler : Handler} (hfills : x.stake.fills = some handler) :
    party ≠ .shutdown ∧ (handler = .player → party = .start) := by
  cases hx with
  | waits hc =>
      rw [Party.stake_waits] at hfills
      exact hc.fills hfills
  | heard hc hsignal =>
      rw [Party.stake_heard] at hfills
      exact hc.fills hfills
  | works hown hcall =>
      rw [stake, hcall] at hfills
      cases hfills
  | turns hown hcall =>
      rw [stake, hcall] at hfills
      cases hfills
  | ended => cases hfills
  | started => cases hfills
  | stopped => cases hfills

theorem Strand.Fits.congr {i i' : Instance} {party : Party} {x : Strand} (hx : x.Fits i party)
    (hstays : i.peer.Stays i'.peer)
    (hplayer : party = .start → i.registration = none → i'.registration = none)
    (hregions : x.stake.holds = true → ∀ region,
      region ∉ i.peer.subscriptions.map (·.1) → region ∉ i'.peer.subscriptions.map (·.1)) :
    x.Fits i' party := by
  cases hx with
  | waits hc =>
      rw [Party.stake_waits] at hregions
      exact .waits (hc.congr hstays hplayer hregions)
  | heard hc hsignal =>
      rw [Party.stake_heard, Call.holds_stake] at hregions
      exact .heard (hc.congr hstays hplayer hregions) hsignal
  | works hown hcall => exact .works hown hcall
  | turns hown hcall hinput => exact .turns hown hcall hinput
  | ended => exact .ended
  | started => exact .started
  | stopped => exact .stopped

/-- A task of the instance's own that does not go on to call anything. -/
theorem Stake.Changes.rest {k : Nat} {i i' : Instance} {live live' : List Registration}
    {before after : Stake} (h : Changes (.own k) i live before i' live' .ended)
    (hafter : after = .nothing ∨ after = .ended) (tasks : Nat) :
    Changes (.own k) i live before { i' with tasks } live' after := by
  obtain rfl | rfl := hafter
  · exact ⟨h.stays, h.started, h.stopped, h.accounts, h.lock, h.regions, h.kept, h.filled, nofun,
      nofun⟩
  · exact ⟨h.stays, h.started, h.stopped, h.accounts, h.lock, h.regions, h.kept, h.filled, nofun,
      nofun⟩

theorem Input.signal?_of_comes {i : Instance} {input : Input} (h : input.comes i = true) :
    input.signal? = none := by
  cases input with
  | call signal => cases h
  | turn => rfl
  | heard about heard => rfl
  | awake => rfl
  | stop => rfl

namespace Strand

variable {σ : Scheme} {party : Party} {i : Instance} {live : List Registration} {now : Nat}
  {x : Strand}

/-- A call runs on; in the publishing loop a pause follows it. -/
theorem goes_of_call {step : Call.Step} (h : Call.Goes party i live x.stake step)
    (htasks : party.isOwn = true → 0 < i.tasks) :
    Goes party i live x (.ofStep live (party.step step)) := by
  obtain ⟨after, events, loops, progress⟩ := step
  obtain ⟨hchanges, hfits, hcount, hloops⟩ := h
  cases party with
  | start =>
      have hbegun : i.stopped = true → loops.map Job.loop = [] := by
        intro hstopped
        rw [show loops = [] from hloops (Or.inl hstopped), List.map_nil]
      have hlength : after.tasks = i.tasks + (loops.map Job.loop).length := by
        rw [List.length_map]
        exact hcount
      cases hfits with
      | waits h => exact ⟨hchanges, .waits h, hlength, hbegun⟩
      | done => exact ⟨hchanges, .started, hlength, hbegun⟩
  | shutdown =>
      obtain rfl : loops = [] := hloops (Or.inr (by decide))
      cases hfits with
      | waits h => exact ⟨hchanges, .waits h, hcount, fun _ => rfl⟩
      | done => exact ⟨hchanges, .stopped, hcount, fun _ => rfl⟩
  | own k =>
      obtain rfl : loops = [] := hloops (Or.inr nofun)
      have hsame : after.tasks = i.tasks := hcount
      cases hfits with
      | waits h => exact ⟨hchanges, .waits h, hsame, fun _ => rfl⟩
      | done =>
          have hstep : (Party.own k).step ⟨after, events, [], .done (.ok ())⟩ =
              (Task.pauseFor after .publishing (after.interval .publishing)).report events [] := rfl
          rw [hstep, Task.pauseFor]
          by_cases hstopped : after.stopped = true
          · rw [if_pos hstopped]
            refine ⟨hchanges.rest (Or.inr rfl) (after.tasks - 1), .ended, ?_, fun _ => rfl⟩
            change after.tasks - 1 + 1 = i.tasks
            rw [hsame]
            exact Nat.sub_add_cancel (htasks rfl)
          · rw [if_neg hstopped]
            exact ⟨hchanges.rest (Or.inl rfl) after.tasks, .works rfl rfl, hsame, fun _ => rfl⟩

theorem goes_of_works {k : Nat} {step : Task.Step} (hstake : x.stake = .nothing)
    (h : Task.Works i step) : Goes (.own k) i live x (.ofStep live step) := by
  refine ⟨?_, h.fits k, ?_, h.begun⟩
  · have hover : Stake.Changes (.own k) i live .nothing step.after live .ended :=
      .still h.stays h.subscriptions h.others rfl rfl nofun nofun
    rw [hstake]
    exact hover.rest h.stake step.after.tasks
  · rw [Party.isOwn, Bool.true_and]
    exact h.tasks

/-- A registration is made: the call that asked for it has it now. -/
theorem goes_registered {c : Call} {id : RegistrationId} {name : Name} {handler : Handler}
    (hfits : c.Fits i party) (hconsistent : i.peer.Consistent)
    (hneed : c.need i = .registration name handler) (hfresh : id ∉ live.map (·.id)) :
    c.Hears (.registered (.ok id)) ∧
      Stake.Changes party i live (c.stake none) i (live ++ [⟨id, name, handler⟩])
        (c.stake (some (.registered (.ok id)))) := by
  have hadded : ∀ before after : Stake, before.owed = [] → after.owed = [id] →
      ∀ rest, (live.map (·.id)).Nodup →
        (live.map (·.id)).Perm (i.recorded ++ before.owed ++ rest) →
          ((live ++ [(⟨id, name, handler⟩ : Registration)]).map (·.id)).Nodup ∧
            ((live ++ [(⟨id, name, handler⟩ : Registration)]).map (·.id)).Perm
              (i.recorded ++ after.owed ++ rest) := by
    intro before after hbefore hafter rest hids hlive
    rw [List.map_append, List.map_singleton, hafter]
    rw [hbefore, List.append_nil] at hlive
    refine ⟨?_, ?_⟩
    · rw [← List.concat_eq_append]
      exact List.Nodup.concat hfresh hids
    · rw [List.append_assoc, List.singleton_append]
      exact (List.perm_append_singleton _ _).trans ((hlive.cons id).trans List.perm_middle.symm)
  have hchanges : ∀ fills, Stake.Changes party i live ⟨[], fills, []⟩ i
      (live ++ [⟨id, name, handler⟩]) ⟨[id], fills, []⟩ := by
    intro fills
    exact ⟨.refl hconsistent, rfl, rfl, hadded _ _ rfl rfl, fun _ hcount => hcount,
      fun _ _ hregion => hregion, fun _ => Or.inl rfl, fun _ hfill => Or.inl hfill,
      fun _ _ => ⟨fun hmem => hmem, Or.inl⟩, fun _ => Or.inl⟩
  cases hfits with
  | announce h => exact ⟨.announce id, hchanges _⟩
  | subscribe hpurpose hleaf hregion => exact ⟨.subscribe _ _ id, hchanges _⟩
  | track hpurpose hleaf => cases hneed
  | stop => cases hneed
  | clear id rest => cases hneed
  | retire id => cases hneed

/-- Without the one registration of a number the others are left. -/
theorem ids_of_removal {id : RegistrationId} {others : List RegistrationId}
    (hids : (live.map (·.id)).Nodup) (h : (live.map (·.id)).Perm (id :: others)) :
    ((live.filter (·.id != id)).map (·.id)).Nodup ∧
      ((live.filter (·.id != id)).map (·.id)).Perm others := by
  have hfilter : (live.filter (·.id != id)).map (·.id) = (live.map (·.id)).filter (· != id) := by
    rw [List.filter_map]
    rfl
  have hnot : id ∉ others := (List.nodup_cons.1 (h.nodup_iff.1 hids)).1
  have hothers : (id :: others).filter (· != id) = others := by
    rw [List.filter_cons_of_neg (by simp), List.filter_eq_self]
    intro other hother
    rw [bne_iff_ne]
    rintro rfl
    exact hnot hother
  rw [hfilter]
  exact ⟨hids.filter _, (h.filter _).trans (.of_eq hothers)⟩

/-- A registration is taken back: the call that wanted that has it no longer. -/
theorem goes_removed {c : Call} {id : RegistrationId} (hfits : c.Fits i party)
    (hconsistent : i.peer.Consistent) (hneed : c.need i = .removal id) :
    c.Hears (.removed (.ok ())) ∧
      Stake.Changes party i live (c.stake none) i (live.filter (·.id != id))
        (c.stake (some (.removed (.ok ())))) := by
  have hchanges : ∀ rest emptied, Stake.Changes party i live ⟨id :: rest, none, emptied⟩ i
      (live.filter (·.id != id)) ⟨rest, none, emptied⟩ := by
    intro rest emptied
    refine ⟨.refl hconsistent, rfl, rfl, ?_, fun _ hcount => hcount, fun _ _ hregion => hregion,
      fun _ => Or.inl rfl, nofun, fun _ _ => ⟨fun hmem => hmem, Or.inl⟩, fun _ => Or.inl⟩
    intro others hids hlive
    refine ids_of_removal hids (hlive.trans ?_)
    rw [List.append_assoc, List.append_assoc, List.cons_append]
    exact List.perm_middle
  cases hfits with
  | announce h => cases hneed
  | track hpurpose hleaf => cases hneed
  | subscribe hpurpose hleaf hregion => cases hneed
  | stop => cases hneed
  | clear first rest =>
      cases hneed
      exact ⟨.clear _ rest, hchanges rest _⟩
  | retire first =>
      cases hneed
      exact ⟨.retire _, hchanges [] _⟩

theorem goes_answer {c : Call} {id : RegistrationId} {signal : Signal} {live' : List Registration}
    (hfits : c.Fits i party) (hconsistent : i.peer.Consistent)
    (hserve : Registration.serve live (c.need i) (.ok id) = some (signal, live')) :
    Goes party i live (.waits (party.task c))
      ⟨i, live', [], .heard (party.task c) (.call signal)⟩ := by
  have hgoes : c.Hears signal ∧
      Stake.Changes party i live (c.stake none) i live' (c.stake (some signal)) := by
    cases hneed : c.need i with
    | lock =>
        rw [hneed] at hserve
        cases hserve
    | registration name handler =>
        rw [hneed] at hserve
        obtain ⟨hfresh, rfl, rfl⟩ := Registration.serve_registration hserve
        exact goes_registered hfits hconsistent hneed hfresh
    | removal taken =>
        rw [hneed, Registration.serve] at hserve
        split at hserve
        · cases hserve
          exact goes_removed hfits hconsistent hneed
        · cases hserve
    | quiet =>
        rw [hneed] at hserve
        cases hserve
  refine ⟨?_, .heard hfits hgoes.1, ?_, fun _ => rfl⟩
  · rw [Party.stake_waits, Party.stake_heard]
    exact hgoes.2
  · rw [show (heard (party.task c) (.call signal)).isDone = false from rfl, Bool.and_false]
    rfl

/-- The lock goes to a call, or the end of all tasks is known to it, and it runs on. -/
theorem goes_grant {c : Call} {signal : Signal} (hfits : c.Fits i party)
    (hconsistent : i.peer.Consistent) (hgiven : given? i (c.need i) = some signal) :
    Call.Goes party i live (c.stake none) (c.resume i signal) := by
  cases hfits with
  | announce h => cases hgiven
  | track hpurpose hleaf =>
      rw [Call.need, given?] at hgiven
      split at hgiven
      · cases hgiven
      · next hfree =>
          cases hgiven
          exact Call.goes_track hconsistent hpurpose hleaf (by simpa using hfree)
  | subscribe hpurpose hleaf hregion => cases hgiven
  | stop =>
      rw [Call.need, given?] at hgiven
      split at hgiven
      · next hquiet =>
          cases hgiven
          exact Call.goes_stop hconsistent hquiet
      · cases hgiven
  | clear id rest => cases hgiven
  | retire id => cases hgiven

theorem goes_heard {c : Call} {signal : Signal} (hfits : c.Fits i party) (hsignal : c.Hears signal)
    (hconsistent : i.peer.Consistent) :
    Call.Goes party i live (c.stake (some signal)) (c.resume i signal) := by
  cases hsignal with
  | announce id =>
      cases hfits with
      | announce h => exact Call.goes_announce hconsistent h id
  | subscribe leaf purpose id =>
      cases hfits with
      | subscribe hpurpose hleaf hregion =>
          exact Call.goes_subscribe hconsistent hpurpose hleaf hregion id
  | clear id rest =>
      cases hfits with
      | clear => exact Call.goes_clear hconsistent id rest
  | retire id =>
      cases hfits with
      | retire => exact Call.goes_retire hconsistent id

theorem goes_of_next (hfits : x.Fits i party) (hconsistent : i.peer.Consistent)
    (htasks : party.isOwn = true → 0 < i.tasks) {turn : Turn} {m : Move}
    (hnext : x.next σ i live now turn = some m) : Goes party i live x m := by
  cases hfits with
  | waits h =>
      cases turn with
      | grant =>
          rw [next, Party.call?_task, Option.bind_some] at hnext
          obtain ⟨signal, hgiven, rfl⟩ := Option.map_eq_some_iff.1 hnext
          rw [Party.resume_task]
          refine goes_of_call ?_ htasks
          rw [Party.stake_waits]
          exact goes_grant h hconsistent hgiven
      | answer id =>
          rw [next, Party.call?_task, Option.bind_some] at hnext
          obtain ⟨⟨signal, live'⟩, hserve, rfl⟩ := Option.map_eq_some_iff.1 hnext
          exact goes_answer h hconsistent hserve
      | hear input =>
          rw [next, Party.call?_task, if_neg (by simp)] at hnext
          cases hnext
      | resume => cases hnext
  | heard h hsignal =>
      cases turn with
      | resume =>
          cases hnext
          rw [Party.resume_task]
          refine goes_of_call ?_ htasks
          rw [Party.stake_heard]
          exact goes_heard h hsignal hconsistent
      | grant => cases hnext
      | answer id => cases hnext
      | hear input => cases hnext
  | works hown hcall =>
      cases turn with
      | hear input =>
          rw [next] at hnext
          split at hnext
          · next hpossible =>
              cases hnext
              refine ⟨?_, .turns hown hcall (Input.signal?_of_comes hpossible.2), rfl, fun _ => rfl⟩
              rw [stake, stake, hcall]
              exact .still (.refl hconsistent) rfl rfl rfl rfl nofun nofun
          · cases hnext
      | grant =>
          rw [next, hcall] at hnext
          cases hnext
      | answer id =>
          rw [next, hcall] at hnext
          cases hnext
      | resume => cases hnext
  | turns hown hcall hinput =>
      cases turn with
      | resume =>
          cases hnext
          refine goes_of_works ?_ (Task.Works.resume hconsistent (htasks rfl) hown hcall hinput)
          rw [stake, hcall]
          rfl
      | grant => cases hnext
      | answer id => cases hnext
      | hear input => cases hnext
  | ended => cases hnext
  | started => cases hnext
  | stopped => cases hnext

end Strand

end RegionSync
