import RegionSync.Proofs.Network.Agenda
import RegionSync.Proofs.Network.Certain
import RegionSync.Simulation.Host

/-!
Simulations in which only scripts answer. Every request to a script is gone through in at most three
steps, so no wait of the host is cut short; and between the calls of the host no exchange is open.
-/

namespace RegionSync

open Network

def Responder.IsScript : Responder → Prop
  | .script _ => True
  | .seat .. => False

/-- When and with what an answer that leaves the responder now ends its exchange, if it is not lost. -/
def Offer.homeward? (τ : Timer) (c : Conditions) (o : Offer) (now : Nat) (response : Response) :
    Option (Nat × Option Response) :=
  if c.carries (o.route.node, o.asker) then
    some (now + τ.slept (c.latency (o.route.node, o.asker)), some response)
  else none

/-- The same for a request that reaches the responder now. -/
def Offer.roundTrip? (σ : Scheme) (τ : Timer) (c : Conditions) (o : Offer) (now : Nat) :
    Option (Nat × Option Response) :=
  match o.route.responder with
  | .seat .. => none
  | .script script =>
    (script.answer σ o.request.name).bind (o.homeward? τ c (now + script.delay))

/-- The same for an offer that has come so far. -/
def Offer.ends? (σ : Scheme) (τ : Timer) (c : Conditions) (o : Offer) (now : Nat) :
    Leg → Option (Nat × Option Response)
  | .arrival => o.roundTrip? σ τ c now
  | .again _ => o.roundTrip? σ τ c now
  | .answered response => o.homeward? τ c now response
  | .back response => some (now, some response)

namespace Happening

/-- Part of an exchange with a script, the number of the exchange being one given out before. -/
def IsScripted (fresh : Nat) : Happening → Prop
  | .offer o _ => o.route.responder.IsScript ∧ o.exchange < fresh
  | .expiry x => x < fresh
  | _ => False

/-- How many steps the happening and what comes of it take, with scripts. -/
def weight : Happening → Nat
  | .offer _ .arrival => 3
  | .offer _ (.again _) => 3
  | .offer _ (.answered _) => 2
  | _ => 1

theorem IsScripted.mono {fresh more : Nat} {what : Happening} (h : what.IsScripted fresh)
    (hle : fresh ≤ more) : what.IsScripted more := by
  cases what with
  | offer o leg => exact ⟨h.1, Nat.lt_of_lt_of_le h.2 hle⟩
  | expiry x => exact Nat.lt_of_lt_of_le h hle
  | asking => exact h.elim
  | input => exact h.elim

theorem weight_pos (what : Happening) : 0 < what.weight := by
  rw [weight.eq_def]
  split <;> exact Nat.succ_pos _

theorem weight_le (what : Happening) : what.weight ≤ 3 := by
  rw [weight.eq_def]
  split <;> decide

/-- When and with what the happening, due now, ends an exchange by itself or by what comes of it, with
this timer and as long as these conditions hold. -/
def ends? (σ : Scheme) (τ : Timer) (c : Conditions) (x now : Nat) :
    Happening → Option (Nat × Option Response)
  | .offer o leg => if o.exchange = x then o.ends? σ τ c now leg else none
  | .expiry y => if y = x then some (now, none) else none
  | _ => none

end Happening

namespace Simulation

variable {σ : Scheme} {τ : Timer} {s s' : Simulation} {what : Happening} {due : Nat}
  {rest : Agenda Happening}

/-! One thing more to come. -/

/-- The second state is the first with one thing more to come, at that time. -/
structure Adds (due : Nat) (what : Happening) (s s' : Simulation) : Prop where
  same : s' = { s with agenda := s'.agenda }
  mem_iff : ∀ item, item ∈ s'.agenda ↔ item = (due, what) ∨ item ∈ s.agenda
  timely : Agenda.Timely s.now s.agenda → Agenda.Timely s.now s'.agenda

theorem adds_after (s : Simulation) (ms : Nat) (what : Happening) :
    Adds (s.now + ms) what s (s.after ms what) :=
  ⟨rfl, fun _ => Agenda.mem_schedule, fun h => h.schedule (Nat.le_add_right ..) what⟩

theorem adds_atOnce (s : Simulation) (what : Happening) : Adds s.now what s (s.atOnce [what]) :=
  ⟨rfl, fun _ => List.mem_cons, fun h => h.cons what⟩

theorem adds_afterWait (s : Simulation) (ms : Nat) (what : Happening) :
    Adds (s.now + ms) what s (s.afterWait ms what) := by
  rw [afterWait]
  split
  · next hzero =>
      subst hzero
      exact adds_atOnce s what
  · exact adds_after s ms what

/-- The patience of the host goes into the agenda, before what is due at the same time. -/
theorem adds_limit (s : Simulation) (x lifetime : Nat) :
    Adds (s.now + lifetime) (.expiry x) s (s.limit x lifetime .host) := by
  rw [limit]
  split
  · next hzero =>
      subst hzero
      exact adds_atOnce s (.expiry x)
  · exact ⟨rfl, fun _ => Agenda.mem_scheduleFirst,
      fun h => h.scheduleFirst (Nat.le_add_right ..) (.expiry x)⟩

theorem load_afterWait (weight : Happening → Nat) (ms : Nat) (what : Happening) :
    Agenda.load weight (s.afterWait ms what).agenda = weight what + Agenda.load weight s.agenda := by
  rw [afterWait]
  split
  · rfl
  · exact Agenda.load_schedule ..

/-! What can come of a happening. -/

/-- What is left when something has happened that is part of an exchange with a script: it has led to
nothing, or to something else later, or to the end of an exchange. -/
inductive Outcome (σ : Scheme) (s : Simulation) (what : Happening) : Simulation → Prop
  | lost (hub : Hub Responder) (keeps : s.hub.Keeps hub) (offer : ∀ x, what ≠ .expiry x)
      (never : s.hub.conditions.Certain → ∀ x,
        what.ends? σ s.timer s.hub.conditions x s.now = none) :
      Outcome σ s what { s with hub }
  | goes (hub : Hub Responder) (keeps : s.hub.Keeps hub) (offer : ∀ x, what ≠ .expiry x) (ms : Nat)
      (next : Happening) (lighter : next.weight < what.weight)
      (scripted : ∀ fresh, what.IsScripted fresh → next.IsScripted fresh)
      (same : s.hub.conditions.Certain → ∀ x,
        next.ends? σ s.timer s.hub.conditions x (s.now + ms) =
          what.ends? σ s.timer s.hub.conditions x s.now) :
      Outcome σ s what (afterWait { s with hub } ms next)
  | closes (x : Nat) (response : Option Response)
      (here : ∀ τ c y, what.ends? σ τ c y s.now = if x = y then some (s.now, response) else none) :
      Outcome σ s what (s.close x response)

theorem outcome_reach {o : Offer} {leg : Leg} (h : o.route.responder.IsScript)
    (hweight : (Happening.offer o leg).weight = 3)
    (hends : ∀ τ c x, (Happening.offer o leg).ends? σ τ c x s.now =
      if o.exchange = x then o.roundTrip? σ τ c s.now else none) (retries : Option Nat) :
    Outcome σ s (.offer o leg) (s.reach σ o retries) := by
  have hoffer : ∀ x, Happening.offer o leg ≠ .expiry x := nofun
  cases hresponder : o.route.responder with
  | seat =>
      rw [hresponder] at h
      exact h.elim
  | script script =>
      rw [reach, hresponder]
      dsimp only
      cases hanswer : script.answer σ o.request.name with
      | none =>
          refine .lost s.hub (.refl _) hoffer fun _ x => ?_
          rw [hends, Offer.roundTrip?, hresponder]
          dsimp only
          rw [hanswer, Option.bind_none, ite_self]
      | some response =>
          have hlighter : (Happening.offer o (.answered response)).weight <
              (Happening.offer o leg).weight := by
            rw [hweight]
            exact Nat.lt_succ_self 2
          refine .goes s.hub (.refl _) hoffer script.delay (.offer o (.answered response))
            hlighter (fun _ hscripted => hscripted) fun _ x => ?_
          rw [hends, Offer.roundTrip?, hresponder]
          dsimp only
          rw [hanswer, Option.bind_some]
          rfl

theorem outcome_sendBack (o : Offer) (response : Response) :
    Outcome σ s (.offer o (.answered response)) (s.sendBack o response) := by
  have hends : ∀ τ c x, (Happening.offer o (.answered response)).ends? σ τ c x s.now =
      if o.exchange = x then o.homeward? τ c s.now response else none := fun _ _ _ => rfl
  have hoffer : ∀ x, Happening.offer o (.answered response) ≠ .expiry x := nofun
  rw [sendBack]
  cases hhop : s.hub.hop (o.route.node, o.asker) with
  | error fault =>
      exact .lost s.hub (.refl _) hoffer fun hcertain => absurd hcertain (Hub.not_certain_of_hop hhop)
  | ok result =>
      obtain ⟨wait, hub⟩ := result
      have hkeeps := Hub.keeps_hop hhop
      cases wait with
      | none =>
          refine .lost hub hkeeps hoffer fun hcertain x => ?_
          rw [hends, Offer.homeward?, if_neg (Hub.lost_of_hop hhop hcertain), ite_self]
      | some ms =>
          refine .goes hub hkeeps hoffer (s.timer.slept ms) (.offer o (.back response))
            (Nat.lt_succ_self 1) (fun _ hscripted => hscripted) fun hcertain x => ?_
          obtain ⟨hcarries, rfl⟩ := Hub.sent_of_hop hhop hcertain
          rw [hends, Offer.homeward?, if_pos hcarries]
          rfl

/-- Whatever of an exchange with a script happens, there are these three outcomes. -/
theorem outcome_perform {fresh : Nat} (h : what.IsScripted fresh) :
    Outcome σ s what (s.perform σ what) := by
  cases what with
  | offer o leg =>
      cases leg with
      | arrival => exact outcome_reach h.1 rfl (fun _ _ _ => rfl) none
      | again retries => exact outcome_reach h.1 rfl (fun _ _ _ => rfl) (some retries)
      | answered response => exact outcome_sendBack o response
      | back response => exact .closes o.exchange (some response) fun _ _ _ => rfl
  | expiry x => exact .closes x none fun _ _ _ => rfl
  | asking => exact h.elim
  | input => exact h.elim

/-! What a step keeps. -/

/-- With this timer, only exchanges of the host with scripts are under way. -/
structure Scripted (τ : Timer) (s : Simulation) : Prop where
  timer : s.timer = τ
  routes : ∀ r ∈ s.hub.routes, r.responder.IsScript
  agenda : ∀ item ∈ s.agenda, item.2.IsScripted s.fresh
  timely : Agenda.Timely s.now s.agenda
  held : s.held = []
  asker : ∀ e ∈ s.exchanges, e.asker = .host

/-- How many steps it takes at most until nothing is left to happen. -/
def load (s : Simulation) : Nat :=
  Agenda.load Happening.weight s.agenda

theorem close_host (h : ∀ e ∈ s.exchanges, e.asker = .host) (x : Nat) (response : Option Response) :
    (∀ e ∈ s.exchanges, e.id ≠ x) ∧ s.close x response = s ∨
      (∃ e ∈ s.exchanges, e.id = x) ∧ ∃ hub : Hub Responder, s.hub.Keeps hub ∧
        s.close x response =
          { s with exchanges := s.exchanges.filter (·.id != x), hub, heard := some response } := by
  unfold close
  cases hfind : s.exchanges.find? (·.id == x) with
  | none =>
      refine Or.inl ⟨fun e he => ?_, rfl⟩
      simpa using List.find?_eq_none.1 hfind e he
  | some e =>
      have hmem := List.mem_of_find?_eq_some hfind
      have hid : e.id = x := by simpa using List.find?_some hfind
      dsimp only
      rw [h e hmem]
      refine Or.inr ⟨⟨e, hmem, hid⟩, _, ?_, rfl⟩
      cases response with
      | none => exact ⟨rfl, fun _ => rfl⟩
      | some response => exact ⟨rfl, fun _ => rfl⟩

theorem Scripted.withHub (h : s.Scripted τ) {hub : Hub Responder} (keeps : s.hub.Keeps hub) :
    ({ s with hub } : Simulation).Scripted τ :=
  ⟨h.timer, fun r hr => h.routes r (keeps.routes ▸ hr), h.agenda, h.timely, h.held, h.asker⟩

theorem Scripted.adds (h : s.Scripted τ) (hadds : Adds due what s s')
    (hwhat : what.IsScripted s.fresh) : s'.Scripted τ := by
  have hagenda : ∀ item ∈ s'.agenda, item.2.IsScripted s.fresh := by
    intro item hitem
    rcases (hadds.mem_iff item).1 hitem with rfl | hitem
    · exact hwhat
    · exact h.agenda item hitem
  rw [hadds.same]
  exact ⟨h.timer, h.routes, hagenda, hadds.timely h.timely, h.held, h.asker⟩

theorem Outcome.scripted (ho : Outcome σ s what s') (h : s.Scripted τ)
    (hwhat : what.IsScripted s.fresh) : s'.Scripted τ := by
  cases ho with
  | lost hub keeps => exact h.withHub keeps
  | goes hub keeps offer ms next lighter scripted =>
      exact (h.withHub keeps).adds (adds_afterWait ..) (scripted _ hwhat)
  | closes x response =>
      rcases close_host h.asker x response with ⟨-, heq⟩ | ⟨-, hub, keeps, heq⟩
      · rw [heq]
        exact h
      · rw [heq]
        exact ⟨h.timer, fun r hr => h.routes r (keeps.routes ▸ hr), h.agenda, h.timely, h.held,
          fun e he => h.asker e (List.mem_filter.1 he).1⟩

theorem Outcome.load_lt (ho : Outcome σ s what s') (h : ∀ e ∈ s.exchanges, e.asker = .host) :
    s'.load < what.weight + s.load := by
  have hless : s.load < what.weight + s.load := Nat.lt_add_of_pos_left what.weight_pos
  cases ho with
  | lost => exact hless
  | goes hub keeps offer ms next lighter =>
      rw [load, load_afterWait]
      exact Nat.add_lt_add_right lighter _
  | closes x response =>
      rcases close_host h x response with ⟨-, heq⟩ | ⟨-, hub, -, heq⟩
      · rw [heq]
        exact hless
      · rw [heq]
        exact hless

namespace Scripted

/-- The state in which the first thing of the agenda happens. -/
theorem pop (h : s.Scripted τ) (hagenda : s.agenda = (due, what) :: rest) :
    ({ s with now := due, agenda := rest } : Simulation).Scripted τ := by
  have htimely := h.timely
  rw [hagenda] at htimely
  exact ⟨h.timer, h.routes, fun item hitem => h.agenda item (hagenda ▸ List.mem_cons_of_mem _ hitem),
    htimely.tail, h.held, h.asker⟩

theorem isScripted_head (h : s.Scripted τ) (hagenda : s.agenda = (due, what) :: rest) :
    what.IsScripted s.fresh :=
  h.agenda (due, what) (hagenda ▸ List.mem_cons_self)

theorem outcome_step (h : s.Scripted τ) (hagenda : s.agenda = (due, what) :: rest) :
    Outcome σ { s with now := due, agenda := rest } what (s.step σ) := by
  rw [step, h.held, hagenda]
  exact outcome_perform (h.isScripted_head hagenda)

theorem step (h : s.Scripted τ) (hagenda : s.agenda = (due, what) :: rest) :
    (s.step σ).Scripted τ :=
  (h.outcome_step hagenda).scripted (h.pop hagenda) (h.isScripted_head hagenda)

theorem load_step (h : s.Scripted τ) (hagenda : s.agenda = (due, what) :: rest) :
    (s.step σ).load < s.load := by
  calc
    (s.step σ).load < what.weight + Agenda.load Happening.weight rest :=
      (h.outcome_step hagenda).load_lt h.asker
    _ = s.load := by rw [load, hagenda, Agenda.load]

theorem isOver_iff (h : s.Scripted τ) : s.isOver = true ↔ s.agenda = [] := by
  rw [isOver, h.held, List.isEmpty_nil, Bool.and_true, List.isEmpty_iff]

end Scripted

/-! Runs. -/

theorem load_le_budget (s : Simulation) : s.load ≤ s.budget := by
  have hthree : s.load ≤ 3 * s.agenda.length := Agenda.load_le fun item _ => item.2.weight_le
  rw [budget]
  omega

/-- A run ends as it should, not because the steps run out, if there are as many as the load. -/
theorem run_ends (stop : Simulation → Bool) {P : Simulation → Prop}
    (hscripted : ∀ s, P s → s.Scripted τ)
    (hstep : ∀ s due what rest, P s → s.agenda = (due, what) :: rest → stop s = false → P (s.step σ))
    {fuel : Nat} (hfuel : s.load ≤ fuel) (h : P s) :
    P (run σ stop fuel s) ∧
      (stop (run σ stop fuel s) = true ∨ (run σ stop fuel s).agenda = []) := by
  induction fuel generalizing s with
  | zero =>
      refine ⟨h, Or.inr ?_⟩
      cases hagenda : s.agenda with
      | nil => exact hagenda
      | cons item rest =>
          obtain ⟨due, what⟩ := item
          have hlt := (hscripted s h).load_step (σ := σ) hagenda
          omega
  | succ fuel ih =>
      rw [run]
      split
      · next hends =>
          rw [Bool.or_eq_true, (hscripted s h).isOver_iff] at hends
          exact ⟨h, hends⟩
      · next hgoes =>
          rw [Bool.not_eq_true, Bool.or_eq_false_iff] at hgoes
          obtain ⟨hstop, hover⟩ := hgoes
          cases hagenda : s.agenda with
          | nil =>
              rw [(hscripted s h).isOver_iff.2 hagenda] at hover
              cases hover
          | cons item rest =>
              obtain ⟨due, what⟩ := item
              have hlt := (hscripted s h).load_step (σ := σ) hagenda
              exact ih (by omega) (hstep s due what rest h hagenda hstop)

end Simulation

end RegionSync
