import RegionSync.Proofs.Simulation.Asking

/-!
The earliest answer wins. Whatever the host of a simulation with scripts did before, a request of it
comes to the answer that is back first, if that is before its patience ends, and else to nothing when
its patience ends. The timer has to keep the latencies of the links; what else it makes of sleeps does
not matter.
-/

namespace RegionSync

open Network

/-- What the host of a simulation without instances can do. -/
inductive HostCall
  | register (node : NodeId) (name : Name) (script : Script)
  | unregister (node : NodeId) (id : RegistrationId)
  | setConditions (f : Conditions → Conditions)
  | sleep (milliseconds : Nat)
  | request (node : NodeId) (r : Request)

/-- Messages are under way for as long as these conditions say. -/
def Timer.KeepsLatencies (τ : Timer) (c : Conditions) : Prop :=
  ∀ link, τ.slept (c.latency link) = c.latency link

/-- A longest sleep does not matter that is as long as every latency that is set. -/
theorem Timer.keepsLatencies_upTo {longest : Nat} {c : Conditions}
    (h : ∀ item ∈ c.latencies, item.2 ≤ longest) : (upTo longest).KeepsLatencies c := by
  intro link
  refine Nat.min_eq_left ?_
  rw [Conditions.latency]
  cases hlookup : c.latencies.lookup link with
  | none => exact Nat.zero_le longest
  | some ms =>
      obtain ⟨before, after, hsplit, -⟩ := List.lookup_eq_some_iff.1 hlookup
      exact h (link, ms) (hsplit ▸ List.mem_append_right before List.mem_cons_self)

namespace Simulation

variable {σ : Scheme} {τ : Timer} {s : Simulation}

/-- The simulation after a call; taking back what is not registered changes nothing. -/
def afterCall (σ : Scheme) (s : Simulation) : HostCall → Simulation
  | .register node name script => (s.registerScript node name script).2
  | .unregister node id => (s.unregister node id).toOption.getD s
  | .setConditions f => s.setConditions f
  | .sleep milliseconds => s.sleep σ milliseconds
  | .request node r => (s.request σ node r).2

/-- A simulation with this timer and seed after these calls. -/
def hosted (σ : Scheme) (τ : Timer) (seed : UInt64) (calls : List HostCall) : Simulation :=
  calls.foldl (afterCall σ) (ofHub τ (.empty (.ofSeed seed)))

/-! What the calls keep. -/

theorem quiet_ofHub (τ : Timer) (c : Conditions) : (ofHub τ (.empty c)).Quiet τ :=
  ⟨⟨rfl, nofun, nofun, Agenda.timely_nil 0, rfl, nofun⟩, rfl⟩

theorem Quiet.withHub (h : s.Quiet τ) {hub : Hub Responder}
    (hroutes : ∀ r ∈ hub.routes, r.responder.IsScript) : ({ s with hub } : Simulation).Quiet τ :=
  ⟨⟨h.timer, hroutes, h.agenda, h.timely, h.held, h.asker⟩, h.exchanges⟩

theorem Quiet.unregister (h : s.Quiet τ) (node : NodeId) (id : RegistrationId) :
    ((s.unregister node id).toOption.getD s).Quiet τ := by
  rw [Simulation.unregister, Hub.unregister]
  split
  · exact h.withHub fun r hr => h.routes r (List.mem_filter.1 hr).1
  · exact h

/-- Nothing is overdue after a run that stops only when what is next is due at a time or later. -/
theorem Quiet.run_until (h : s.Quiet τ) (goal : Nat) (stop : Simulation → Bool)
    (hstop : ∀ s : Simulation, stop s = true → ∀ first rest, s.agenda = first :: rest →
      goal ≤ first.1) :
    ({ run σ stop s.budget s with now := goal } : Simulation).Quiet τ := by
  obtain ⟨hquiet, hend⟩ := run_ends (σ := σ) stop (P := Quiet τ) (fun s hs => hs.toScripted)
    (fun s due what rest hs hagenda _ => (hs.step hagenda).1) (load_le_budget s) h
  have hahead : ∀ item ∈ (run σ stop s.budget s).agenda, goal ≤ item.1 := by
    intro item hitem
    have htimely := hquiet.timely
    cases hagenda : (run σ stop s.budget s).agenda with
    | nil =>
        rw [hagenda] at hitem
        cases hitem
    | cons first rest =>
        rw [hagenda] at hitem htimely hend
        have hfirst := hstop _ (hend.resolve_right (List.cons_ne_nil _ _)) first rest hagenda
        exact Nat.le_trans hfirst (htimely.first_le hitem)
  exact ⟨⟨hquiet.timer, hquiet.routes, hquiet.agenda, ⟨hquiet.timely.ordered, hahead⟩, hquiet.held,
    hquiet.asker⟩, hquiet.exchanges⟩

theorem Quiet.sleep (h : s.Quiet τ) (milliseconds : Nat) : (s.sleep σ milliseconds).Quiet τ := by
  rw [Simulation.sleep]
  refine h.run_until _ _ fun s hstop first rest hagenda => ?_
  rw [hagenda] at hstop
  exact of_decide_eq_true hstop

theorem Quiet.afterCall (h : s.Quiet τ) (call : HostCall) : (s.afterCall σ call).Quiet τ := by
  cases call with
  | register node name script =>
      refine h.withHub fun r hr => ?_
      rcases List.mem_append.1 hr with hr | hr
      · exact h.routes r hr
      · rw [List.mem_singleton.1 hr]
        exact trivial
  | unregister node id => exact h.unregister node id
  | setConditions f => exact h.withHub h.routes
  | sleep milliseconds => exact h.sleep milliseconds
  | request node r => exact (h.request node r).1

theorem quiet_hosted (σ : Scheme) (τ : Timer) (seed : UInt64) (calls : List HostCall) :
    (hosted σ τ seed calls).Quiet τ := by
  have hall : ∀ s : Simulation, s.Quiet τ → (calls.foldl (Simulation.afterCall σ) s).Quiet τ := by
    induction calls with
    | nil => exact fun s hs => hs
    | cons call calls ih => exact fun s hs => ih _ (hs.afterCall call)
  exact hall _ (quiet_ofHub τ _)

/-! The answers that get back. -/

/-- How many milliseconds after a request of a node the answer of a route is back, and what it is, if
the request is offered to the route, both messages get through and there is an answer. -/
def trip? (σ : Scheme) (c : Conditions) (node : NodeId) (name : Name)
    (route : Route Responder) : Option (Nat × Response) :=
  match route.responder with
  | .seat .. => none
  | .script script =>
    if route.node ≠ node ∧ route.name.covers name ∧ c.carries (node, route.node) ∧
        c.carries (route.node, node) then
      (script.answer σ name).map fun response =>
        (c.latency (node, route.node) + script.delay + c.latency (route.node, node), response)
    else none

def trips (σ : Scheme) (s : Simulation) (node : NodeId) (name : Name) : List (Nat × Response) :=
  s.hub.routes.filterMap (trip? σ s.hub.conditions node name)

theorem trip?_eq_some_iff {c : Conditions} {node : NodeId} {name : Name} {route : Route Responder}
    {script : Script} (h : route.responder = .script script) {trip : Nat × Response} :
    trip? σ c node name route = some trip ↔
      (route.node ≠ node ∧ route.name.covers name ∧ c.carries (node, route.node) ∧
        c.carries (route.node, node)) ∧
      script.answer σ name = some trip.2 ∧
        trip.1 = c.latency (node, route.node) + script.delay + c.latency (route.node, node) := by
  rw [trip?, h]
  dsimp only
  split
  · next hreached =>
      rw [Option.map_eq_some_iff, and_iff_right hreached]
      constructor
      · rintro ⟨response, hanswer, rfl⟩
        exact ⟨hanswer, rfl⟩
      · rintro ⟨hanswer, htime⟩
        exact ⟨trip.2, hanswer, Prod.ext htime.symm rfl⟩
  · next hnot =>
      constructor
      · nofun
      · exact fun hreached => absurd hreached.1 hnot

theorem answers_iff {c : Conditions} (hkeeps : τ.KeepsLatencies c) {now x : Nat} {node : NodeId}
    {r : Request} {route : Route Responder} {script : Script} (h : route.responder = .script script)
    {finish : Nat × Option Response} :
    Answers σ τ c now x node r route finish ↔
      (c.carries (node, route.node) = true ∧ c.carries (route.node, node) = true) ∧
      ∃ response, script.answer σ r.name = some response ∧
        finish = (now + (c.latency (node, route.node) + script.delay +
          c.latency (route.node, node)), some response) := by
  have htime : ∀ a b d : Nat, now + (a + b + d) = now + a + b + d := by omega
  rw [Answers, Offer.roundTrip?, h, hkeeps, and_assoc]
  refine and_congr_right fun _ => ?_
  dsimp only
  rw [Option.bind_eq_some_iff, htime]
  constructor
  · rintro ⟨response, hanswer, hhome⟩
    rw [Offer.homeward?, hkeeps] at hhome
    split at hhome
    · next hback => exact ⟨hback, response, hanswer, (Option.some.inj hhome).symm⟩
    · cases hhome
  · rintro ⟨hback, response, hanswer, rfl⟩
    refine ⟨response, hanswer, ?_⟩
    rw [Offer.homeward?, if_pos hback, hkeeps]

/-- The ends of a request are the patience of the host and the answers that get back. -/
theorem Quiet.requestEnds_iff (h : s.Quiet τ) (hkeeps : τ.KeepsLatencies s.hub.conditions)
    {node : NodeId} {r : Request} {finish : Nat × Option Response} :
    RequestEnds σ τ s node r finish ↔ finish = (s.now + r.lifetime, none) ∨
      ∃ trip ∈ trips σ s node r.name, finish = (s.now + trip.1, some trip.2) := by
  refine or_congr_right ⟨?_, ?_⟩
  · rintro ⟨route, hroute, hanswers⟩
    obtain ⟨hmem, hnode, hname⟩ := Hub.mem_offers.1 hroute
    cases hresponder : route.responder with
    | seat =>
        have hscript := h.routes route hmem
        rw [hresponder] at hscript
        exact hscript.elim
    | script script =>
        obtain ⟨⟨hthere, hback⟩, response, hanswer, rfl⟩ := (answers_iff hkeeps hresponder).1 hanswers
        have htrip : trip? σ s.hub.conditions node r.name route = some (_, response) :=
          (trip?_eq_some_iff hresponder).2 ⟨⟨hnode, hname, hthere, hback⟩, hanswer, rfl⟩
        exact ⟨_, List.mem_filterMap.2 ⟨route, hmem, htrip⟩, rfl⟩
  · rintro ⟨trip, htrip, rfl⟩
    obtain ⟨route, hmem, htrip⟩ := List.mem_filterMap.1 htrip
    cases hresponder : route.responder with
    | seat =>
        rw [trip?, hresponder] at htrip
        cases htrip
    | script script =>
        obtain ⟨⟨hnode, hname, hthere, hback⟩, hanswer, htime⟩ :=
          (trip?_eq_some_iff hresponder).1 htrip
        refine ⟨route, Hub.mem_offers.2 ⟨hmem, hnode, hname⟩, (answers_iff hkeeps hresponder).2
          ⟨⟨hthere, hback⟩, trip.2, hanswer, ?_⟩⟩
        rw [htime]

/-- What a request comes to, and after how long: the earliest of these answers if one is back before the
patience of the asker ends, and else nothing when it ends. -/
structure Earliest (trips : List (Nat × Response)) (lifetime : Nat) (heard : Option Response)
    (elapsed : Nat) : Prop where
  answered_iff : heard.isSome = true ↔ ∃ trip ∈ trips, trip.1 < lifetime
  least : ∀ response, heard = some response →
    (elapsed, response) ∈ trips ∧ ∀ trip ∈ trips, elapsed ≤ trip.1
  silence : heard = none → elapsed = lifetime

/-- After any calls of the host, where nothing is left to chance, a request comes to the answer that is
back first, if it is back within the lifetime, and else to nothing at the end of the lifetime. -/
theorem request_earliest (σ : Scheme) (τ : Timer) (seed : UInt64) (calls : List HostCall)
    (node : NodeId) (r : Request) (hcertain : (hosted σ τ seed calls).hub.conditions.Certain)
    (hkeeps : τ.KeepsLatencies (hosted σ τ seed calls).hub.conditions)
    (hnever : ∀ trip ∈ trips σ (hosted σ τ seed calls) node r.name, trip.1 ≠ r.lifetime) :
    ∃ heard elapsed, ((hosted σ τ seed calls).request σ node r).1 = .ok heard ∧
      ((hosted σ τ seed calls).request σ node r).2.now = (hosted σ τ seed calls).now + elapsed ∧
      Earliest (trips σ (hosted σ τ seed calls) node r.name) r.lifetime heard elapsed := by
  have hquiet := quiet_hosted σ τ seed calls
  generalize hosted σ τ seed calls = s at *
  obtain ⟨-, hearliest⟩ := hquiet.request (σ := σ) node r
  obtain ⟨heard, hanswer, hfinish, hleast⟩ := hearliest hcertain
  rw [hquiet.requestEnds_iff hkeeps] at hfinish
  have hlifetime := hleast _ ((hquiet.requestEnds_iff hkeeps).2 (Or.inl rfl))
  have htrips : ∀ trip ∈ trips σ s node r.name,
      (s.request σ node r).2.now ≤ s.now + trip.1 :=
    fun trip htrip => hleast _ ((hquiet.requestEnds_iff hkeeps).2 (Or.inr ⟨trip, htrip, rfl⟩))
  generalize (s.request σ node r).2.now = later at *
  rcases hfinish with hsilent | ⟨trip, htrip, hback⟩
  · cases hsilent
    refine ⟨none, r.lifetime, hanswer, rfl, ⟨nofun, ?_⟩, nofun, fun _ => rfl⟩
    rintro ⟨trip, htrip, hlt⟩
    have hge := htrips trip htrip
    omega
  · cases hback
    have hne := hnever trip htrip
    have hlt : trip.1 < r.lifetime := by omega
    refine ⟨some trip.2, trip.1, hanswer, rfl,
      ⟨fun _ => ⟨trip, htrip, hlt⟩, fun _ => rfl⟩, ?_, nofun⟩
    rintro response ⟨⟩
    exact ⟨htrip, fun other hother => Nat.le_of_add_le_add_left (htrips other hother)⟩

/-- Of five routes one is silent, one loses its answer on the way back and one is cut off. Of the two
others the one that was registered later is back first, and the other would be too late. -/
theorem request_earliest_five_routes :
    let calls : List HostCall := [
      .register ⟨[1]⟩ ⟨["x"]⟩ { delay := 0, content := none, name := none, secret := [] },
      .register ⟨[2]⟩ ⟨["x"]⟩ { delay := 700, content := some [7], name := none, secret := [] },
      .register ⟨[3]⟩ ⟨["x"]⟩ { delay := 40, content := some [4], name := none, secret := [] },
      .register ⟨[4]⟩ ⟨[]⟩ { delay := 1, content := some [1], name := none, secret := [] },
      .register ⟨[5]⟩ ⟨["x"]⟩ { delay := 0, content := some [0], name := none, secret := [] },
      .setConditions (·.setLatency (⟨[9]⟩, ⟨[3]⟩) 30),
      .setConditions (·.setLatency (⟨[3]⟩, ⟨[9]⟩) 50),
      .setConditions (·.setLoss (⟨[4]⟩, ⟨[9]⟩) (.ofNat 1)),
      .setConditions (·.separate [⟨[9]⟩] [⟨[5]⟩])]
    let s := hosted .sealing (.upTo 1000) 7 calls
    let r : Request := ⟨⟨["x", "y"]⟩, 500, true⟩
    s.hub.conditions.Certain ∧ (Timer.upTo 1000).KeepsLatencies s.hub.conditions ∧
      (trips .sealing s ⟨[9]⟩ r.name).map (fun trip => (trip.1, trip.2.content)) =
        [(700, [7]), (120, [4])] ∧
      (∃ response, (s.request .sealing ⟨[9]⟩ r).1 = .ok (some response) ∧ response.content = [4]) ∧
      (s.request .sealing ⟨[9]⟩ r).2.now = 120 := by
  intro calls s r
  have hlosses : s.hub.conditions.losses = [((⟨[4]⟩, ⟨[9]⟩), Conditions.chance (.ofNat 1))] := rfl
  have hzero : s.hub.conditions.defaultLoss.eq .zero = true := by decide +kernel
  have hone : (Conditions.chance (.ofNat 1)).eq (.ofNat 1) = true := by decide +kernel
  have hcertain : s.hub.conditions.Certain := by
    intro link
    rw [Conditions.loss, hlosses, List.lookup_cons]
    split
    · rw [Option.getD_some]
      exact Or.inr hone
    · rw [List.lookup_nil, Option.getD_none]
      exact Or.inl hzero
  have hkeeps : (Timer.upTo 1000).KeepsLatencies s.hub.conditions :=
    Timer.keepsLatencies_upTo (by decide +kernel)
  have hback : (trips .sealing s ⟨[9]⟩ r.name).map
      (fun trip => (trip.1, trip.2.content)) = [(700, [7]), (120, [4])] := by
    decide +kernel
  have htwo : ∀ trip ∈ trips .sealing s ⟨[9]⟩ r.name,
      trip.1 = 700 ∨ trip.1 = 120 ∧ trip.2.content = [4] := by
    intro trip htrip
    have hmem := List.mem_map_of_mem (f := fun trip => (trip.1, trip.2.content)) htrip
    rw [hback] at hmem
    simp only [List.mem_cons, List.not_mem_nil, or_false, Prod.mk.injEq] at hmem
    exact hmem.imp_left And.left
  obtain ⟨early, hearly, hfast⟩ : ∃ trip ∈ trips .sealing s ⟨[9]⟩ r.name, trip.1 = 120 := by
    have hmem : (120, [4]) ∈ (trips .sealing s ⟨[9]⟩ r.name).map
        (fun trip => (trip.1, trip.2.content)) := by
      rw [hback]
      exact List.mem_cons_of_mem _ List.mem_cons_self
    obtain ⟨trip, htrip, heq⟩ := List.mem_map.1 hmem
    exact ⟨trip, htrip, congrArg Prod.fst heq⟩
  obtain ⟨heard, elapsed, hok, hnow, hearliest⟩ := request_earliest .sealing (.upTo 1000) 7 calls ⟨[9]⟩ r
    hcertain hkeeps fun trip htrip => by rcases htwo trip htrip with h | ⟨h, -⟩ <;> rw [h] <;> decide
  have hanswered := hearliest.answered_iff.2 ⟨early, hearly, by rw [hfast]; decide⟩
  obtain ⟨response, rfl⟩ := Option.isSome_iff_exists.1 hanswered
  obtain ⟨hmem, hleast⟩ := hearliest.least response rfl
  have hsoon : elapsed ≤ 120 := hfast ▸ hleast early hearly
  rcases htwo _ hmem with hslow | ⟨rfl, hcontent⟩
  · have hlate : elapsed = 700 := hslow
    omega
  · exact ⟨hcertain, hkeeps, hback, ⟨response, hok, hcontent⟩, hnow⟩

end Simulation

end RegionSync
