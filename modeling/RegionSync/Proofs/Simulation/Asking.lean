import RegionSync.Proofs.Simulation.Scripted

/-!
A request of the host to scripts. From when it is made something in the agenda ends its exchange, each
end with its time; steps keep these ends while the exchange is open, and so the earliest comes first.
-/

namespace RegionSync

open Network

theorem Happening.le_of_ends? {σ : Scheme} {τ : Timer} {c : Conditions} {x now : Nat}
    {what : Happening} {finish : Nat × Option Response} (h : what.ends? σ τ c x now = some finish) :
    now ≤ finish.1 := by
  have hhome : ∀ {o : Offer} {later : Nat} {response : Response}, now ≤ later →
      o.homeward? τ c later response = some finish → now ≤ finish.1 := by
    intro o later response hlater hend
    rw [Offer.homeward?] at hend
    split at hend
    · cases hend
      exact Nat.le_trans hlater (Nat.le_add_right ..)
    · cases hend
  have htrip : ∀ {o : Offer}, o.roundTrip? σ τ c now = some finish → now ≤ finish.1 := by
    intro o hend
    rw [Offer.roundTrip?] at hend
    split at hend
    · cases hend
    · obtain ⟨response, -, hend⟩ := Option.bind_eq_some_iff.1 hend
      exact hhome (Nat.le_add_right ..) hend
  cases what with
  | offer o leg =>
      rw [ends?] at h
      split at h
      · cases leg with
        | arrival => exact htrip h
        | again => exact htrip h
        | answered response => exact hhome (Nat.le_refl now) h
        | back response =>
            cases h
            exact Nat.le_refl now
      · cases h
  | expiry y =>
      rw [ends?] at h
      split at h
      · cases h
        exact Nat.le_refl now
      · cases h
  | asking => cases h
  | input => cases h

/-- An exchange does not end by what is part of an earlier one. -/
theorem Happening.IsScripted.ends?_eq_none {σ : Scheme} {τ : Timer} {c : Conditions} {x now : Nat}
    {what : Happening} (h : what.IsScripted x) : what.ends? σ τ c x now = none := by
  cases what with
  | offer o leg => rw [ends?, if_neg (Nat.ne_of_lt h.2)]
  | expiry y => rw [ends?, if_neg (Nat.ne_of_lt h)]
  | asking => exact h.elim
  | input => exact h.elim

namespace Simulation

variable {σ : Scheme} {τ : Timer} {s s' : Simulation} {what : Happening} {due x : Nat}
  {rest : Agenda Happening} {c : Conditions} {ends : Nat × Option Response → Prop}

/-- Something in the agenda ends the exchange, at that time and with that. -/
def Ends (σ : Scheme) (τ : Timer) (c : Conditions) (x : Nat) (s : Simulation)
    (finish : Nat × Option Response) : Prop :=
  ∃ item ∈ s.agenda, item.2.ends? σ τ c x item.1 = some finish

/-- No exchange is open. -/
structure Quiet (τ : Timer) (s : Simulation) : Prop extends Scripted τ s where
  exchanges : s.exchanges = []

/-- The host waits for an exchange, which expires; under certain conditions it has just these ends. -/
structure Waits (σ : Scheme) (τ : Timer) (c : Conditions) (x : Nat)
    (ends : Nat × Option Response → Prop) (s : Simulation) : Prop extends Scripted τ s where
  exchanges : s.exchanges = [⟨x, .host⟩]
  heard : s.heard = none
  expires : ∃ due, (due, .expiry x) ∈ s.agenda
  certain : c.Certain → s.hub.conditions = c ∧ ∀ finish, s.Ends σ τ c x finish ↔ ends finish

/-- The host has heard something, under certain conditions at the earliest of the ends. -/
structure Hears (τ : Timer) (c : Conditions) (ends : Nat × Option Response → Prop)
    (s : Simulation) : Prop extends Quiet τ s where
  heard : ∃ response, s.heard = some response ∧
    (c.Certain → ends (s.now, response) ∧ ∀ finish, ends finish → s.now ≤ finish.1)

theorem ends_cons (hagenda : s.agenda = (due, what) :: rest) (finish : Nat × Option Response) :
    s.Ends σ τ c x finish ↔
      what.ends? σ τ c x due = some finish ∨
        ({ s with now := due, agenda := rest } : Simulation).Ends σ τ c x finish := by
  rw [Ends, hagenda]
  simp only [List.mem_cons, exists_eq_or_imp]
  exact Iff.rfl

theorem ends_adds (hadds : Adds due what s s') (finish : Nat × Option Response) :
    s'.Ends σ τ c x finish ↔ what.ends? σ τ c x due = some finish ∨ s.Ends σ τ c x finish := by
  rw [Ends]
  simp only [hadds.mem_iff, or_and_right, exists_or, exists_eq_left]
  exact Iff.rfl

/-- What happens when no exchange is open is not heard by the host. -/
theorem Outcome.unheard (ho : Outcome σ s what s') (hnone : s.exchanges = []) :
    s'.exchanges = [] ∧ s'.heard = s.heard ∧ s'.now = s.now := by
  cases ho with
  | lost => exact ⟨hnone, rfl, rfl⟩
  | goes hub keeps offer ms next =>
      rw [(adds_afterWait _ ms next).same]
      exact ⟨hnone, rfl, rfl⟩
  | closes y response =>
      have hclosed : s.close y response = s := by
        unfold close
        rw [hnone]
        rfl
      rw [hclosed]
      exact ⟨hnone, rfl, rfl⟩

theorem Quiet.step (h : s.Quiet τ) (hagenda : s.agenda = (due, what) :: rest) :
    (s.step σ).Quiet τ ∧ (s.step σ).heard = s.heard ∧ (s.step σ).now = due := by
  obtain ⟨hexchanges, hheard, hnow⟩ := (h.outcome_step (σ := σ) hagenda).unheard h.exchanges
  exact ⟨⟨h.toScripted.step hagenda, hexchanges⟩, hheard, hnow⟩

/-- What happens leaves the patience of the host in the agenda, unless it is that. -/
theorem Waits.expires_rest (h : s.Waits σ τ c x ends) (hagenda : s.agenda = (due, what) :: rest)
    (hnot : what ≠ .expiry x) : ∃ due, (due, .expiry x) ∈ rest := by
  obtain ⟨time, hmem⟩ := h.expires
  rcases List.mem_cons.1 (hagenda ▸ hmem) with heq | hmem
  · cases heq
    exact absurd rfl hnot
  · exact ⟨time, hmem⟩

/-- If what is due first ends the exchange, that is its earliest end. -/
theorem Waits.earliest (h : s.Waits σ τ c x ends) (hagenda : s.agenda = (due, what) :: rest)
    {finish : Nat × Option Response} (hfirst : what.ends? σ τ c x due = some finish)
    (hcertain : c.Certain) : ends finish ∧ ∀ other, ends other → due ≤ other.1 := by
  obtain ⟨-, hends⟩ := h.certain hcertain
  refine ⟨(hends finish).1 ((ends_cons hagenda finish).2 (Or.inl hfirst)), fun other hother => ?_⟩
  obtain ⟨item, hitem, hlands⟩ := (hends other).2 hother
  have htimely := h.timely
  rw [hagenda] at htimely hitem
  exact Nat.le_trans (htimely.first_le hitem) (Happening.le_of_ends? hlands)

/-- While the host waits, a step keeps the ends of the exchange, or ends it at the earliest. -/
theorem Waits.outcome (h : s.Waits σ τ c x ends) (hagenda : s.agenda = (due, what) :: rest)
    (ho : Outcome σ { s with now := due, agenda := rest } what s') :
    s'.Waits σ τ c x ends ∨ s'.Hears τ c ends := by
  have hscripted := ho.scripted (h.pop hagenda) (h.isScripted_head hagenda)
  cases ho with
  | lost hub keeps offer never =>
      refine Or.inl ⟨hscripted, h.exchanges, h.heard, h.expires_rest hagenda (offer x),
        fun hcertain => ?_⟩
      obtain ⟨hsame, hends⟩ := h.certain hcertain
      obtain rfl := h.timer
      subst hsame
      refine ⟨keeps.conditions hcertain, fun finish => ?_⟩
      rw [← hends, ends_cons hagenda, never hcertain]
      simp only [reduceCtorEq, false_or]
      exact Iff.rfl
  | goes hub keeps offer ms next lighter scripted same =>
      have hadds := adds_afterWait { s with now := due, agenda := rest, hub := hub } ms next
      obtain ⟨time, hmem⟩ := h.expires_rest hagenda (offer x)
      refine Or.inl ⟨hscripted, (congrArg Simulation.exchanges hadds.same).trans h.exchanges,
        (congrArg Simulation.heard hadds.same).trans h.heard,
        ⟨time, (hadds.mem_iff _).2 (Or.inr hmem)⟩, fun hcertain => ?_⟩
      obtain ⟨hsame, hends⟩ := h.certain hcertain
      obtain rfl := h.timer
      subst hsame
      refine ⟨(congrArg (fun s => s.hub.conditions) hadds.same).trans (keeps.conditions hcertain),
        fun finish => ?_⟩
      rw [ends_adds hadds, ← hends, ends_cons hagenda, ← same hcertain]
      exact Iff.rfl
  | closes y response here =>
      rcases close_host (h.pop hagenda).asker y response with
        ⟨hother, heq⟩ | ⟨⟨e, he, hid⟩, hub, keeps, heq⟩
      · -- Something of another exchange, which is over.
        have hne : ¬ y = x := fun hxy =>
          hother ⟨x, .host⟩ (h.exchanges ▸ List.mem_singleton_self _) hxy.symm
        have hnever : what.ends? σ τ c x due = none := by rw [here, if_neg hne]
        have hnot : what ≠ .expiry x := by
          rintro rfl
          rw [Happening.ends?, if_pos rfl] at hnever
          cases hnever
        rw [heq] at hscripted ⊢
        refine Or.inl ⟨hscripted, h.exchanges, h.heard, h.expires_rest hagenda hnot,
          fun hcertain => ?_⟩
        obtain ⟨hsame, hends⟩ := h.certain hcertain
        refine ⟨hsame, fun finish => ?_⟩
        rw [← hends, ends_cons hagenda, hnever]
        simp only [reduceCtorEq, false_or]
      · -- The end of the exchange that the host waits for.
        have hopen : e ∈ s.exchanges := he
        rw [h.exchanges, List.mem_singleton] at hopen
        subst hopen
        obtain rfl : x = y := hid
        have hnone : s.exchanges.filter (·.id != x) = [] := by
          rw [h.exchanges]
          simp
        have hfirst : what.ends? σ τ c x due = some (due, response) := by rw [here, if_pos rfl]
        rw [heq] at hscripted ⊢
        exact Or.inr ⟨⟨hscripted, hnone⟩, response, rfl, h.earliest hagenda hfirst⟩

/-! Making a request. -/

/-- A request that leaves for a route now ends its exchange then and with that. -/
def Answers (σ : Scheme) (τ : Timer) (c : Conditions) (now x : Nat) (node : NodeId)
    (request : Request) (route : Route Responder) (finish : Nat × Option Response) : Prop :=
  c.carries (node, route.node) = true ∧
    Offer.roundTrip? σ τ c ⟨x, node, route, request⟩
      (now + τ.slept (c.latency (node, route.node))) = some finish

/-- What comes of offering a request to routes: messages are under way, and each that gets through adds
an end to the exchange. -/
structure Offered (σ : Scheme) (τ : Timer) (x : Nat) (node : NodeId) (request : Request)
    (offers : List (Route Responder)) (s s' : Simulation) : Prop extends Scripted τ s' where
  now : s'.now = s.now
  exchanges : s'.exchanges = s.exchanges
  heard : s'.heard = s.heard
  keeps : s.hub.Keeps s'.hub
  subset : s.agenda ⊆ s'.agenda
  ends : ∀ c : Conditions, c.Certain → s.hub.conditions = c → ∀ finish, s'.Ends σ τ c x finish ↔
    s.Ends σ τ c x finish ∨ ∃ route ∈ offers, Answers σ τ c s.now x node request route finish

/-- A request to a route that is lost adds no end. -/
theorem Offered.of_lost {node : NodeId} {request : Request} {route : Route Responder}
    {offers : List (Route Responder)} {hub : Hub Responder} (hkeeps : s.hub.Keeps hub)
    (hlost : s.hub.conditions.Certain → ¬ s.hub.conditions.carries (node, route.node) = true)
    (h : Offered σ τ x node request offers { s with hub } s') :
    Offered σ τ x node request (route :: offers) s s' := by
  refine ⟨h.toScripted, h.now, h.exchanges, h.heard, hkeeps.trans h.keeps, h.subset,
    fun c hcertain hc finish => ?_⟩
  subst hc
  have hnot : ¬ Answers σ τ s.hub.conditions s.now x node request route finish :=
    fun hanswers => hlost hcertain hanswers.1
  rw [h.ends _ hcertain (hkeeps.conditions hcertain)]
  simp only [List.mem_cons, exists_eq_or_imp, hnot, false_or]
  exact Iff.rfl

/-- A request that is sent to a route adds the end that comes of it. -/
theorem Offered.of_sent {node : NodeId} {request : Request} {route : Route Responder}
    {offers : List (Route Responder)} {hub : Hub Responder} {ms : Nat} (hkeeps : s.hub.Keeps hub)
    (htimer : s.timer = τ)
    (hsent : s.hub.conditions.Certain → s.hub.conditions.carries (node, route.node) = true ∧
      ms = s.hub.conditions.latency (node, route.node))
    (h : Offered σ τ x node request offers
      (after { s with hub } (s.timer.slept ms) (.offer ⟨x, node, route, request⟩ .arrival)) s') :
    Offered σ τ x node request (route :: offers) s s' := by
  have hadds := adds_after { s with hub } (s.timer.slept ms)
    (.offer ⟨x, node, route, request⟩ .arrival)
  refine ⟨h.toScripted, h.now, h.exchanges, h.heard, hkeeps.trans h.keeps,
    fun item hitem => h.subset ((hadds.mem_iff item).2 (Or.inr hitem)),
    fun c hcertain hc finish => ?_⟩
  subst hc htimer
  obtain ⟨hcarries, rfl⟩ := hsent hcertain
  have hanswers : Answers σ s.timer s.hub.conditions s.now x node request route finish ↔
      (Happening.offer ⟨x, node, route, request⟩ .arrival).ends? σ s.timer s.hub.conditions x
        (s.now + s.timer.slept (s.hub.conditions.latency (node, route.node))) = some finish := by
    rw [Answers, Happening.ends?, if_pos rfl, hcarries]
    exact and_iff_right rfl
  rw [h.ends _ hcertain (hkeeps.conditions hcertain), ends_adds hadds]
  simp only [List.mem_cons, exists_eq_or_imp, hanswers, or_assoc]
  exact or_left_comm

/-- Offering a request to scripts adds their answers to the ends; only by chance can it fail. -/
theorem offered_offerTo (node : NodeId) (request : Request) {offers : List (Route Responder)}
    (h : s.Scripted τ) (hx : x < s.fresh) (hoffers : ∀ r ∈ offers, r.responder.IsScript) :
    Offered σ τ x node request offers s (s.offerTo x node request offers).2 ∧
      (s.hub.conditions.Certain → (s.offerTo x node request offers).1 = true) := by
  induction offers generalizing s with
  | nil =>
      refine ⟨⟨h, rfl, rfl, rfl, .refl _, fun _ hitem => hitem, fun c _ _ finish => ?_⟩, fun _ => rfl⟩
      simp only [List.not_mem_nil, false_and, exists_false, or_false]
      exact Iff.rfl
  | cons route offers ih =>
      have hrest : ∀ r ∈ offers, r.responder.IsScript :=
        fun r hr => hoffers r (List.mem_cons_of_mem _ hr)
      rw [offerTo]
      cases hhop : s.hub.hop (node, route.node) with
      | error fault =>
          have huncertain := Hub.not_certain_of_hop hhop
          exact ⟨⟨h, rfl, rfl, rfl, .refl _, fun _ hitem => hitem,
            fun c hcertain hsame => absurd (hsame ▸ hcertain) huncertain⟩,
            fun hcertain => absurd hcertain huncertain⟩
      | ok result =>
          obtain ⟨wait, hub⟩ := result
          have hkeeps := Hub.keeps_hop hhop
          have hstays : s.hub.conditions.Certain → hub.conditions.Certain :=
            fun hcertain => hkeeps.conditions hcertain ▸ hcertain
          cases wait with
          | none =>
              obtain ⟨hoffered, hmade⟩ := ih (h.withHub hkeeps) hx hrest
              exact ⟨hoffered.of_lost hkeeps (Hub.lost_of_hop hhop),
                fun hcertain => hmade (hstays hcertain)⟩
          | some ms =>
              have hpart : (Happening.offer ⟨x, node, route, request⟩ .arrival).IsScripted s.fresh :=
                ⟨hoffers route List.mem_cons_self, hx⟩
              have hleaves := (h.withHub hkeeps).adds (adds_after _ (s.timer.slept ms) _) hpart
              obtain ⟨hoffered, hmade⟩ := ih hleaves hx hrest
              exact ⟨hoffered.of_sent hkeeps h.timer (Hub.sent_of_hop hhop),
                fun hcertain => hmade (hstays hcertain)⟩

/-- The state in which an exchange of the host was just opened. -/
def opening (s : Simulation) : Simulation :=
  { s with
    heard := none
    hub := s.hub.countRequest
    fresh := s.fresh + 1
    exchanges := ⟨s.fresh, .host⟩ :: s.exchanges }

theorem express_host (s : Simulation) (node : NodeId) (r : Request) :
    ({ s with heard := none } : Simulation).express node r .host =
      let sent := (s.opening.limit s.fresh r.lifetime .host).offerTo s.fresh node r
        (s.hub.offers node r.name)
      if sent.1 then (true, sent.2)
      else (false, { sent.2 with exchanges := sent.2.exchanges.filter (·.id != s.fresh) }) :=
  rfl

theorem Quiet.opening (h : s.Quiet τ) : s.opening.Scripted τ := by
  refine ⟨h.timer, h.routes, fun item hitem => (h.agenda item hitem).mono (Nat.le_succ s.fresh), h.timely,
    h.held, fun e he => ?_⟩
  rcases List.mem_cons.1 he with rfl | he
  · rfl
  · exact h.asker e he

/-- What was due before does not end the exchange that was just opened. -/
theorem Quiet.not_ends_opening (h : s.Quiet τ) (finish : Nat × Option Response) :
    ¬ s.opening.Ends σ τ c s.fresh finish := by
  rintro ⟨item, hitem, hends⟩
  rw [(h.agenda item hitem).ends?_eq_none] at hends
  cases hends

/-- With nothing sent yet, only the patience of the host can end the exchange. -/
theorem Quiet.waits_limit (h : s.Quiet τ) (lifetime : Nat) :
    (s.opening.limit s.fresh lifetime .host).Waits σ τ s.hub.conditions s.fresh
      (· = (s.now + lifetime, none)) := by
  have hadds := adds_limit s.opening s.fresh lifetime
  have hscripted := h.opening.adds hadds (Nat.lt_succ_self s.fresh)
  have hexchanges : s.opening.exchanges = [⟨s.fresh, .host⟩] := congrArg (_ :: ·) h.exchanges
  refine ⟨hscripted, (congrArg Simulation.exchanges hadds.same).trans hexchanges,
    congrArg Simulation.heard hadds.same, ⟨_, (hadds.mem_iff _).2 (Or.inl rfl)⟩,
    fun _ => ⟨congrArg (fun s => s.hub.conditions) hadds.same, fun finish => ?_⟩⟩
  rw [ends_adds hadds, or_iff_left (h.not_ends_opening finish), Happening.ends?, if_pos rfl,
    Option.some_inj]
  exact eq_comm

/-- The ends of a request: the patience of the host, and the answers that reach it. -/
def RequestEnds (σ : Scheme) (τ : Timer) (s : Simulation) (node : NodeId) (r : Request)
    (finish : Nat × Option Response) : Prop :=
  finish = (s.now + r.lifetime, none) ∨
    ∃ route ∈ s.hub.offers node r.name,
      Answers σ τ s.hub.conditions s.now s.fresh node r route finish

/-- After making a request the host waits for its ends; only by chance can it fail to be made. -/
theorem Quiet.express (h : s.Quiet τ) (node : NodeId) (r : Request) :
    let asked := ({ s with heard := none } : Simulation).express node r .host
    asked.1 = true ∧ asked.2.Waits σ τ s.hub.conditions s.fresh (RequestEnds σ τ s node r) ∨
      asked.1 = false ∧ asked.2.Quiet τ ∧ ¬ s.hub.conditions.Certain := by
  intro asked
  have hwaits := h.waits_limit (σ := σ) r.lifetime
  have hscripts : ∀ route ∈ s.hub.offers node r.name, route.responder.IsScript :=
    fun route hroute => h.routes route (Hub.mem_offers.1 hroute).1
  have hsame := (adds_limit s.opening s.fresh r.lifetime).same
  have hlater : (s.opening.limit s.fresh r.lifetime .host).fresh = s.fresh + 1 :=
    congrArg Simulation.fresh hsame
  have hnow : (s.opening.limit s.fresh r.lifetime .host).now = s.now := by
    rw [hsame]
    rfl
  have hconditions : (s.opening.limit s.fresh r.lifetime .host).hub.conditions = s.hub.conditions :=
    congrArg (fun s => s.hub.conditions) hsame
  have hfresh : s.fresh < (s.opening.limit s.fresh r.lifetime .host).fresh := by
    rw [hlater]
    exact Nat.lt_succ_self s.fresh
  obtain ⟨hoffered, hall⟩ := offered_offerTo (σ := σ) node r hwaits.toScripted hfresh hscripts
  have hasked : asked = _ := express_host s node r
  rw [hasked]
  dsimp only
  cases hmade : ((s.opening.limit s.fresh r.lifetime .host).offerTo s.fresh node r
      (s.hub.offers node r.name)).1 with
  | true =>
      left
      obtain ⟨due, hexpiry⟩ := hwaits.expires
      refine ⟨rfl, hoffered.toScripted, hoffered.exchanges.trans hwaits.exchanges,
        hoffered.heard.trans hwaits.heard, ⟨due, hoffered.subset hexpiry⟩, fun hcertain => ?_⟩
      obtain ⟨-, hends⟩ := hwaits.certain hcertain
      refine ⟨(hoffered.keeps.conditions (hconditions ▸ hcertain)).trans hconditions, fun finish => ?_⟩
      have hoffers := hoffered.ends s.hub.conditions hcertain hconditions finish
      rw [hends, hnow] at hoffers
      exact hoffers
  | false =>
      right
      have huncertain : ¬ s.hub.conditions.Certain := by
        intro hcertain
        rw [hall (hconditions ▸ hcertain)] at hmade
        cases hmade
      have hexchanges := hoffered.exchanges.trans hwaits.exchanges
      refine ⟨rfl, ⟨⟨hoffered.timer, hoffered.routes, hoffered.agenda, hoffered.timely, hoffered.held,
        fun e he => ?_⟩, ?_⟩, huncertain⟩
      · exact hoffered.asker e (List.mem_filter.1 he).1
      · simp [hexchanges]

/-! Waiting for what comes of it. -/

theorem goesOn_of_heard {response : Option Response} (h : s.heard = some response)
    (hnot : s.goesOn = false) : s.isBusy = true := by
  rw [goesOn, h] at hnot
  cases response with
  | none => cases hnot
  | some response => simpa using hnot

/-- What is still due when the host has heard something changes nothing for it, and takes no time. -/
theorem Hears.step (h : s.Hears τ c ends) (hagenda : s.agenda = (due, what) :: rest)
    (hnot : s.goesOn = false) : (s.step σ).Hears τ c ends := by
  obtain ⟨response, hheard, hleast⟩ := h.heard
  obtain ⟨hquiet, hsame, hnow⟩ := h.toQuiet.step (σ := σ) hagenda
  have hbusy := goesOn_of_heard hheard hnot
  have hdue : due = s.now := by
    have htimely := h.timely
    rw [isBusy, hagenda, decide_eq_true_iff] at hbusy
    rw [hagenda] at htimely
    exact Nat.le_antisymm hbusy htimely.le_head
  refine ⟨hquiet, response, hsame.trans hheard, ?_⟩
  rw [hnow, hdue]
  exact hleast

theorem Waits.hears_run (h : s.Waits σ τ c x ends) {fuel : Nat} (hfuel : s.load ≤ fuel) :
    (run σ goesOn fuel s).Hears τ c ends := by
  have hends := run_ends (σ := σ) goesOn (P := fun s => s.Waits σ τ c x ends ∨ s.Hears τ c ends)
    (fun s hs => hs.elim (·.toScripted) (·.toScripted))
    (fun s due what rest hs hagenda hnot => hs.elim
      (fun hwaits => hwaits.outcome hagenda (hwaits.outcome_step hagenda))
      (fun hhears => Or.inr (hhears.step hagenda hnot)))
    hfuel (Or.inl h)
  obtain ⟨hwaits | hhears, hstop⟩ := hends
  · -- It does not end while the host waits: the patience of the host is still in the agenda.
    rcases hstop with hstop | hempty
    · rw [goesOn, hwaits.heard] at hstop
      cases hstop
    · obtain ⟨due, hexpiry⟩ := hwaits.expires
      rw [hempty] at hexpiry
      cases hexpiry
  · exact hhears

/-- A request comes to the earliest of its ends, at its time. -/
theorem Quiet.request (h : s.Quiet τ) (node : NodeId) (r : Request) :
    (s.request σ node r).2.Quiet τ ∧
      (s.hub.conditions.Certain → ∃ response, (s.request σ node r).1 = .ok response ∧
        RequestEnds σ τ s node r ((s.request σ node r).2.now, response) ∧
        ∀ finish, RequestEnds σ τ s node r finish → (s.request σ node r).2.now ≤ finish.1) := by
  have hexpress := h.express (σ := σ) node r
  rw [Simulation.request]
  cases hasked : ({ s with heard := none } : Simulation).express node r .host with
  | mk made asked =>
      rw [hasked] at hexpress
      dsimp only at hexpress
      rcases hexpress with ⟨rfl, hwaits⟩ | ⟨rfl, hquiet, huncertain⟩
      · have hhears := hwaits.hears_run (load_le_budget asked)
        obtain ⟨response, hheard, hleast⟩ := hhears.heard
        refine ⟨hhears.toQuiet, fun hcertain => ⟨response, ?_, hleast hcertain⟩⟩
        dsimp only
        rw [hheard]
        rfl
      · exact ⟨hquiet, fun hcertain => absurd hcertain huncertain⟩

end Simulation

end RegionSync
