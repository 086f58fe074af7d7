import RegionSync.Simulation.Basic

/-!
One step of a simulation: the next thing on the agenda happens. A request is offered to every route
at once; the first answer that comes back within its lifetime ends it.
-/

namespace RegionSync.Simulation

open Network

/-- Offers a request to routes in turn; `false` if one of them could not be tried. -/
def offerTo (s : Simulation) (exchange : Nat) (asker : NodeId) (request : Request) :
    List (Route Responder) → Bool × Simulation
  | [] => (true, s)
  | route :: rest =>
    match s.hub.hop (asker, route.node) with
    | .error _ => (false, s)
    | .ok (none, hub) => offerTo { s with hub } exchange asker request rest
    | .ok (some delay, hub) =>
      let offer : Offer := ⟨exchange, asker, route, request⟩
      let s := { s with hub }.after (s.timer.slept delay) (.offer offer .arrival)
      offerTo s exchange asker request rest

def limit (s : Simulation) (exchange lifetime : Nat) (asker : Asker) : Simulation :=
  let expiry : Happening := .expiry exchange
  if lifetime = 0 then s.atOnce [expiry]
  else if s.isAwaited asker then
    { s with agenda := s.agenda.scheduleFirst (s.now + lifetime) expiry }
  else s.after lifetime expiry

/-- Makes a request from a node; `false` if it could not be made. -/
def express (s : Simulation) (node : NodeId) (request : Request) (asker : Asker) :
    Bool × Simulation :=
  let id := s.fresh
  let s := { s with
    hub := s.hub.countRequest
    fresh := id + 1
    exchanges := ⟨id, asker⟩ :: s.exchanges }
  let routes := s.hub.offers node request.name
  let (made, s) := (s.limit id request.lifetime asker).offerTo id node request routes
  if made then (true, s)
  else (false, { s with exchanges := s.exchanges.filter (·.id != id) })

/-- A thread comes to this by itself: its own patience ends or its own request fails. Answers come
from elsewhere, and polls of players are made apart from the thread. -/
def isOwn (about : Option EntityName) : Heard → Bool
  | .response _ => false
  | _ => about.isNone

/-- Tells a thread what became of a request: at once, or in the thread's turn. -/
def tell (s : Simulation) (thread : Nat) (about : Option EntityName) (heard : Heard) : Simulation :=
  let what : Happening := .input thread (.heard about heard)
  if isOwn about heard then s.atOnce [what]
  else if s.isOfHost thread then s.holdBack what
  else s.after 0 what

/-- Makes a request that a thread waits for. -/
def ask (s : Simulation) (thread : Nat) (seat : Seat) (asked : Asked) : Simulation :=
  if seat.mute then s.tell thread asked.about (.failure (.network "face down"))
  else
    match s.express seat.node asked.request (.thread thread asked.about) with
    | (true, s) => s
    | (false, s) => s.tell thread asked.about .broken

def registerFor (s : Simulation) (k : Nat) (seat : Seat) (name : Name) (handler : Handler) :
    Except TransportError RegistrationId × Simulation :=
  if (seat.refused.map (·.covers name)).getD false then
    (.error (.refused name.text "refused"), s)
  else
    let (id, hub) := s.hub.register seat.node name (.seat k handler)
    (.ok id, { s with hub })

/-- Takes back a registration of an instance. -/
def removeFor (s : Simulation) (seat : Seat) (id : RegistrationId) :
    Except TransportError Unit × Simulation :=
  if seat.sticky then (.error (.network "face down"), s)
  else
    match s.hub.unregister seat.node id with
    | .ok hub => (.ok (), { s with hub })
    | .error e => (.error e, s)

/-- Begins what a thread waits for. The lock and the end of all tasks are seen to by `wake`. -/
def await (s : Simulation) (thread k : Nat) (seat : Seat) (wait : Wait) : Simulation :=
  let signal (x : Signal) : Happening := .input thread (.call x)
  match wait with
  | .nothing => s
  | .turn => s.after 0 (.input thread .turn)
  | .call (.registration name handler) =>
    let (result, s) := s.registerFor k seat name handler
    s.atOnce [signal (.registered result)]
  | .call (.removal id) =>
    let (result, s) := s.removeFor seat id
    s.atOnce [signal (.removed result)]
  | .call .lock => s
  | .call .quiet => s
  | .answer asked => s.ask thread seat asked
  | .answers asked => asked.foldl (fun s x => s.after 0 (.asking thread x)) s
  | .sleep ms => s.afterSleep ms (.input thread .awake)

/-- The signal that a thread has been waiting for, if the instance can give it now. -/
def signal? (i : Instance) (t : Thread) : Option Signal :=
  match t.wait with
  | .call .lock => if i.locked then none else some .locked
  | .call .quiet => if i.tasks = 0 then some .quiet else none
  | _ => none

/-- Lets the first thread of a seat run on that waits for something the instance can give, after one
of its threads ran. -/
def wake (s : Simulation) (k ran : Nat) : Simulation :=
  match s.seats[k]? with
  | none => s
  | some seat =>
    let ready := s.threads.findSome? fun t =>
      if t.seat = k then (signal? seat.running t).map fun x => (t.id, x) else none
    match ready with
    | none => s
    | some (id, x) =>
      let threads := s.threads.map fun t => if t.id = id then { t with wait := .nothing } else t
      let what : Happening := .input id (.call x)
      if s.isOfHost id && id != ran then { s with threads }.holdBack what
      else { s with threads }.atOnce [what]

/-- A task gives up when its instance stops. -/
def givesUp : Task → Bool
  | .sweep .. => true
  | .poll .. => true
  | .pause _ => true
  | .tag _ => true
  | _ => false

/-- The exchanges without those of a thread. -/
def withoutThread (id : Nat) (exchanges : List Exchange) : List Exchange :=
  exchanges.filter fun e => match e.asker with
    | .thread t _ => t != id
    | .host => true

/-- Tells the threads of a seat that their instance stops. -/
def interrupt (s : Simulation) (k : Nat) : Simulation :=
  let threads := s.threads.filter fun t => t.seat == k && givesUp t.task
  s.atOnce (threads.map fun t => .input t.id .stop)

/-- Adds a thread that waits for its turn. -/
def beginThread (k : Nat) (s : Simulation) (job : Job) : Simulation :=
  let t : Thread := ⟨s.fresh, k, .begin job, .turn⟩
  { s with fresh := s.fresh + 1, threads := s.threads ++ [t] }.after 0 (.input t.id .turn)

/-- Puts a thread in place of the one of its number, or adds it. -/
def setThread (s : Simulation) (t : Thread) : Simulation :=
  if s.threads.any (·.id == t.id) then
    { s with threads := s.threads.map fun u => if u.id = t.id then t else u }
  else { s with threads := s.threads ++ [t] }

def endThread (s : Simulation) (id : Nat) (result : TaskResult) : Simulation :=
  { s with
    threads := s.threads.filter (·.id != id)
    exchanges := withoutThread id s.exchanges
    results := match result with
      | .ended => s.results
      | r => (id, r) :: s.results }

/-- Takes over what the run of a thread left. -/
def take (s : Simulation) (id k : Nat) (seat : Seat) (step : Task.Step) : Simulation :=
  let s := (s.report k step.events).mapSeat k fun _ => { seat with running := step.after }
  let s := if step.after.stopped && !seat.running.stopped then s.interrupt k else s
  let s := step.begun.foldl (beginThread k) s
  let s := match step.progress with
    | .waits task wait => (s.setThread ⟨id, k, task, wait⟩).await id k seat wait
    | .done result => s.endThread id result
  s.wake k id

/-- A thread and its seat, if the thread is still there. -/
def thread? (s : Simulation) (id : Nat) : Option (Thread × Seat) := do
  let t ← s.threads.find? (·.id == id)
  return (t, ← s.seats[t.seat]?)

def resume (σ : Scheme) (s : Simulation) (thread : Nat) (input : Input) : Simulation :=
  match s.thread? thread with
  | none => s
  | some (t, seat) => s.take t.id t.seat seat (t.task.resume σ seat.running s.now input)

/-- Makes one of the requests that a thread waits for. -/
def askInTurn (s : Simulation) (thread : Nat) (asked : Asked) : Simulation :=
  match s.thread? thread with
  | none => s
  | some (_, seat) => s.ask thread seat asked

/-- Ends an exchange, if it is open, with what the asker hears. -/
def close (s : Simulation) (exchange : Nat) (response : Option Response) : Simulation :=
  match s.exchanges.find? (·.id == exchange) with
  | none => s
  | some e =>
    let s := { s with
      exchanges := s.exchanges.filter (·.id != exchange)
      hub := if response.isSome then s.hub.countAnswer else s.hub }
    match e.asker with
    | .host => { s with heard := some response }
    | .thread id about =>
      s.tell id about (match response with
        | some r => .response r
        | none => .silence)

/-- The answer of a responder leaves for the asker. -/
def sendBack (s : Simulation) (offer : Offer) (response : Response) : Simulation :=
  match s.hub.hop (offer.route.node, offer.asker) with
  | .error _ => s
  | .ok (none, hub) => { s with hub }
  | .ok (some delay, hub) => { s with hub }.afterSleep delay (.offer offer (.back response))

/-- An instance looks at a request, which may be made to wait so many times more. -/
def consult (σ : Scheme) (s : Simulation) (offer : Offer) (k : Nat) (seat : Seat)
    (handler : Handler) (retries : Nat) : Simulation :=
  let peer := seat.running.peer
  let (reply, events) := handler.reply σ peer offer.request.name s.timestamp
  let s := s.report k events
  match reply with
  | .answered (some response) => s.sendBack offer response
  | .wait =>
    match retries with
    | 0 => s
    | n + 1 => s.afterSleep (Handler.patience peer) (.offer offer (.again n))
  | _ => s

/-- A request reaches a responder, for the first time or again. -/
def reach (σ : Scheme) (s : Simulation) (offer : Offer) (retries : Option Nat) : Simulation :=
  match offer.route.responder with
  | .seat k handler =>
    match s.seats[k]? with
    | none => s
    | some seat =>
      let left := retries.getD (Handler.retries seat.running.peer)
      s.consult σ offer k seat handler left
  | .script script =>
    match script.answer σ offer.request.name with
    | none => s
    | some response => s.afterWait script.delay (.offer offer (.answered response))

def perform (σ : Scheme) (s : Simulation) : Happening → Simulation
  | .offer offer .arrival => s.reach σ offer none
  | .offer offer (.again retries) => s.reach σ offer (some retries)
  | .offer offer (.answered response) => s.sendBack offer response
  | .offer offer (.back response) => s.close offer.exchange (some response)
  | .expiry exchange => s.close exchange none
  | .asking thread asked => s.askInTurn thread asked
  | .input thread input => s.resume σ thread input

/-- The next thing happens: what is due by now, else what the host takes up, else what is due next,
at its time. -/
def step (σ : Scheme) (s : Simulation) : Simulation :=
  match s.held, s.agenda with
  | [], [] => s
  | what :: held, [] => { s with held }.perform σ what
  | [], (due, what) :: agenda => { s with now := due, agenda }.perform σ what
  | first :: held, (due, what) :: agenda =>
    if due ≤ s.now then { s with agenda }.perform σ what else { s with held }.perform σ first

end RegionSync.Simulation
