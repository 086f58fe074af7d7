import Mathlib.Logic.Function.Basic
import RegionSync.Proofs.Peer.Exchange

/-!
Two peers that learn from each other while a player of both has stopped. Either peer may ask, answer,
take an answer or miss the player at any time, and messages may be lost or overtaken. Nothing marks
the dead: a peer that has dropped the player takes it up again from an answer that lists it. But only
a peer that holds the player lists it, so what a peer last reported tells whether it holds the
player, and a player that neither holds and no answer lists stays away.
-/

namespace RegionSync

namespace Event

variable {e : EntityName}

/-- What a report says about where a player is. -/
def locationOf (e : EntityName) : Event → Option Location
  | .located f location => if f = e then some location else none
  | _ => none

/-- The locations reported of a player, in order. -/
def locations (e : EntityName) (events : List Event) : List Location :=
  events.filterMap (locationOf e)

theorem locations_append (e : EntityName) (first second : List Event) :
    locations e (first ++ second) = locations e first ++ locations e second :=
  List.filterMap_append

theorem locations_log (e : EntityName) (severity : Severity) (text : String)
    (events : List Event) : locations e (.log severity text :: events) = locations e events := rfl

theorem locations_located (e name : EntityName) (location : Location) :
    locations e [.located name location] = if name = e then [location] else [] := by
  by_cases h : name = e
  · simp [locations, locationOf, h]
  · simp [locations, locationOf, h]

/-- The last location reported for a player. -/
def lastLocation (e : EntityName) (events : List Event) : Option Location :=
  (events.filterMap (locationOf e)).getLast?

theorem lastLocation_eq (e : EntityName) (events : List Event) :
    lastLocation e events = (locations e events).getLast? := rfl

theorem lastLocation_append (first second : List Event) :
    lastLocation e (first ++ second) = (lastLocation e second).or (lastLocation e first) := by
  rw [lastLocation, List.filterMap_append, List.getLast?_append, lastLocation, lastLocation]

end Event

namespace Peer

open Event (lastLocation)

variable {σ : Scheme} {peer : Peer} {e : EntityName}

theorem isSome_player?_takeUpAll (peer : Peer) (list : List (RegionPath × EntityName)) :
    ((peer.takeUpAll list).1.player? e).isSome = true ↔
      (peer.player? e).isSome = true ∨ e ∈ (peer.takeUpAll list).2.map (·.2) := by
  induction list generalizing peer with
  | nil => simp [takeUpAll]
  | cons news rest ih =>
      have hfirst : ((peer.takeUp news).1.player? e).isSome = true ↔
          (peer.player? e).isSome = true ∨ e ∈ (peer.takeUp news).2.map (·.2) := by
        rcases takeUp_cases peer news.1 news.2 with hsame | ⟨-, octree, -, htaken⟩
        · rw [show peer.takeUp news = _ from hsame]
          simp
        · rw [show peer.takeUp news = _ from htaken]
          have hcomm : e = news.2 ↔ news.2 = e := eq_comm
          simp [player?, List.find?_append, RemotePlayer.discovered, hcomm]
      rw [takeUpAll]
      dsimp only
      rw [ih, hfirst, List.map_append, List.mem_append, or_assoc]

theorem mem_of_mem_takeUpAll {list : List (RegionPath × EntityName)} {news : RegionPath × EntityName}
    (h : news ∈ (peer.takeUpAll list).2) : news ∈ list := by
  induction list generalizing peer with
  | nil => cases h
  | cons first rest ih =>
      rw [takeUpAll] at h
      rcases List.mem_append.1 h with hfirst | hrest
      · rcases takeUp_cases peer first.1 first.2 with hsame | ⟨-, octree, -, htaken⟩
        · rw [show peer.takeUp first = _ from hsame] at hfirst
          cases hfirst
        · rw [show peer.takeUp first = _ from htaken] at hfirst
          exact List.mem_singleton.1 hfirst ▸ List.mem_cons_self
      · exact List.mem_cons_of_mem _ (ih hrest)

/-- Of the players that an answer teaches, and of no others, a location is reported. -/
theorem lastLocation_learn (peer : Peer) (response : Response) :
    lastLocation e (peer.learn σ response).events =
      if e ∈ (peer.learn σ response).value then some .discovered else none := by
  have hfound : ∀ found : List (RegionPath × EntityName),
      lastLocation e (found.flatMap fun news =>
        [.log .info s!"discovered {news.2} at {news.1}", .located news.2 .discovered]) =
      if e ∈ found.map (·.2) then some .discovered else none := by
    intro found
    induction found with
    | nil => rfl
    | cons news found ih =>
        rw [List.flatMap_cons, Event.lastLocation_append, ih, List.map_cons]
        by_cases hrest : e ∈ found.map (·.2)
        · rw [if_pos hrest, if_pos (List.mem_cons_of_mem _ hrest)]
          rfl
        · by_cases hhead : news.2 = e
          · subst hhead
            simp [hrest, lastLocation, Event.locationOf]
          · simp [hrest, hhead, Ne.symm hhead, lastLocation, Event.locationOf]
  unfold learn distrust
  cases σ.check response with
  | error => rfl
  | ok =>
      dsimp only
      split
      · rfl
      · exact hfound _

theorem isSome_player?_learn (peer : Peer) (response : Response) :
    ((peer.learn σ response).peer.player? e).isSome = true ↔
      (peer.player? e).isSome = true ∨ e ∈ (peer.learn σ response).value := by
  unfold learn
  split
  · simp
  · split
    · simp
    · exact isSome_player?_takeUpAll ..

/-- A missed poll drops its player, and reports so, or keeps it and reports no location. -/
theorem miss_cases (peer : Peer) (name : EntityName) :
    ((peer.player? name).isSome = true ∧ (peer.miss name).peer.player? name = none ∧
      ∀ e, Event.locations e (peer.miss name).events = if name = e then [.dropped] else []) ∨
    ((peer.miss name).peer.player? name).isSome = (peer.player? name).isSome ∧
      ∀ e, Event.locations e (peer.miss name).events = [] := by
  unfold miss
  split
  · exact Or.inr ⟨rfl, fun _ => rfl⟩
  · next r hfound =>
      dsimp only
      split
      · exact Or.inr ⟨by rw [quietly, isSome_player?_setPlayer], fun _ => rfl⟩
      · split
        · exact Or.inr ⟨by rw [quietly, isSome_player?_setPlayer], fun _ => rfl⟩
        · refine Or.inl ⟨by rw [hfound]; rfl, by simp [player?, forget], fun e => ?_⟩
          exact Event.locations_located e name .dropped

/-- A missed poll drops its player, and reports so, or neither. -/
theorem lastLocation_miss (peer : Peer) (e : EntityName) :
    lastLocation e (peer.miss e).events = some .dropped ∧ (peer.miss e).peer.player? e = none ∨
      lastLocation e (peer.miss e).events = none ∧
        ((peer.miss e).peer.player? e).isSome = (peer.player? e).isSome := by
  rcases miss_cases peer e with ⟨-, hgone, hlocations⟩ | ⟨hsame, hlocations⟩
  · refine Or.inl ⟨?_, hgone⟩
    rw [Event.lastLocation_eq, hlocations, if_pos rfl]
    rfl
  · refine Or.inr ⟨?_, hsame⟩
    rw [Event.lastLocation_eq, hlocations]
    rfl

theorem player?_miss_eq_none (h : peer.player? e = none) : (peer.miss e).peer.player? e = none := by
  rcases lastLocation_miss peer e with ⟨-, hgone⟩ | ⟨-, hsame⟩
  · exact hgone
  · rw [h] at hsame
    rw [← Option.not_isSome_iff_eq_none, hsame]
    decide

/-! Reports in which the last location tells whether the player is known stay so. -/

theorem dropped_learn {reports : List Event}
    (h : lastLocation e reports = some .dropped ↔ peer.player? e = none) (response : Response) :
    (lastLocation e (peer.learn σ response).events).or (lastLocation e reports) = some .dropped ↔
      (peer.learn σ response).peer.player? e = none := by
  rw [lastLocation_learn, ← Option.not_isSome_iff_eq_none, isSome_player?_learn]
  by_cases hnew : e ∈ (peer.learn σ response).value
  · rw [if_pos hnew]
    exact iff_of_false (by simp) fun hnot => hnot (Or.inr hnew)
  · rw [if_neg hnew, Option.none_or, or_iff_left hnew, Option.not_isSome_iff_eq_none]
    exact h

theorem dropped_miss {reports : List Event}
    (h : lastLocation e reports = some .dropped ↔ peer.player? e = none) :
    (lastLocation e (peer.miss e).events).or (lastLocation e reports) = some .dropped ↔
      (peer.miss e).peer.player? e = none := by
  rcases lastLocation_miss peer e with ⟨hlast, hgone⟩ | ⟨hlast, hsame⟩
  · rw [hlast]
    exact iff_of_true rfl hgone
  · rw [hlast, Option.none_or, h, ← Option.not_isSome_iff_eq_none,
      ← Option.not_isSome_iff_eq_none, hsame]

end Peer

/-- The answer can be read and has the player in a listing. -/
def Response.Lists (response : Response) (e : EntityName) : Prop :=
  ∃ listings, Listing.ofBody response.content = .ok listings ∧ ∃ l ∈ listings, e ∈ l.names

namespace Peer

variable {σ : Scheme} {peer : Peer} {e : EntityName} {response : Response}

theorem lists_of_mem_learn (h : e ∈ (peer.learn σ response).value) : response.Lists e := by
  unfold learn at h
  split at h
  · cases h
  · split at h
    · cases h
    · next listings hbody =>
        obtain ⟨news, hnews, rfl⟩ := List.mem_map.1 h
        obtain ⟨-, -, l, hl, -, -, -, hname⟩ :=
          Discovery.of_mem_unknown (mem_of_mem_takeUpAll hnews)
        exact ⟨listings, hbody, l, hl, hname⟩

theorem player?_learn_eq_none (h : peer.player? e = none) (hlists : ¬ response.Lists e) :
    (peer.learn σ response).peer.player? e = none := by
  rw [← Option.not_isSome_iff_eq_none, isSome_player?_learn, h]
  rintro (hknown | hnew)
  · cases hknown
  · exact hlists (lists_of_mem_learn hnew)

/-- A peer lists itself and players that it knows, and nobody else. -/
theorem Reachable.of_lists (h : peer.Reachable σ) {name : Name} {timestamp : UInt64}
    (hanswer : (peer.answerDiscovery σ name timestamp).1 = some response)
    (hlists : response.Lists e) : e = peer.self.name ∨ (peer.player? e).isSome = true := by
  obtain ⟨listings, hbody, l, hl, he⟩ := hlists
  unfold answerDiscovery at hanswer
  split at hanswer
  · cases hanswer
  · next q _ =>
      dsimp only at hanswer
      split at hanswer
      · cases hanswer
      · unfold signed at hanswer
        split at hanswer
        · next made hrespond =>
            obtain rfl : made = response := Option.some.inj hanswer
            have hcontent := Scheme.content_of_respond hrespond
            have hmember : ∀ l ∈ Discovery.answer peer.octree q, ∀ f ∈ l.names,
                ∃ p, peer.octree.hasName p f = true := fun l hl f hf =>
              Discovery.hasName_of_mem_answer h.consistent.wellFormed hl hf
            have hvalid : ∀ l ∈ Discovery.answer peer.octree q, l.Valid := by
              intro l hl f hf
              obtain ⟨p, hp⟩ := hmember l hl f hf
              exact h.valid_of_hasName hp
            rw [hcontent, Listing.ofBody_body hvalid] at hbody
            cases hbody
            obtain ⟨p, hp⟩ := hmember l (List.mem_filter.1 hl).1 e he
            rcases (h.consistent.listed p e).1 hp with ⟨hown, -⟩ | ⟨r, hr, hcard⟩
            · exact Or.inl hown
            · have hname := (RemotePlayer.card_eq_iff.1 hcard).1
              rw [(player?_eq_some_iff h.consistent.nodup).2 ⟨hr, hname⟩]
              exact Or.inr rfl
        · cases hanswer

end Peer

inductive Side
  | one
  | other
  deriving DecidableEq

namespace Side

def opposite : Side → Side
  | one => other
  | other => one

instance {P : Side → Prop} [DecidablePred P] : Decidable (∀ side, P side) :=
  decidable_of_iff (P one ∧ P other)
    ⟨fun h side => by cases side with | one => exact h.1 | other => exact h.2,
      fun h => ⟨h one, h other⟩⟩

end Side

/-- Two peers, what each has reported, and the messages under way between them. -/
structure Pair where
  peer : Side → Peer
  reports : Side → List Event
  /-- Discovery requests, each with the peer that asks. -/
  requests : List (Side × Name)
  /-- Discovery answers, each with the peer that it goes to. -/
  answers : List (Side × Response)

namespace Pair

open Event (lastLocation)

/-- A step of two peers that have stopped hearing of a player. Messages under way are taken, or
lost, in any order. -/
inductive Move
  | ask (side : Side) (target : Discovery.Target)
  /-- The peer asked answers the request in this place. -/
  | answer (place : Nat) (timestamp : UInt64)
  /-- The peer that asked takes the answer in this place. -/
  | take (place : Nat)
  | loseRequest (place : Nat)
  | loseAnswer (place : Nat)
  /-- A poll of the player goes unanswered. -/
  | miss (side : Side)

def act (σ : Scheme) (pair : Pair) (side : Side) (operation : Peer.Operation) : Pair :=
  { pair with
    peer := Function.update pair.peer side ((pair.peer side).step σ operation).1
    reports := Function.update pair.reports side
      (pair.reports side ++ ((pair.peer side).step σ operation).2) }

/-- The pair after a request was answered, if there is something to say. -/
def serve (σ : Scheme) (pair : Pair) (side : Side) (name : Name) (timestamp : UInt64) : Pair :=
  let answered := (pair.peer side.opposite).answerDiscovery σ name timestamp
  { pair with
    reports := Function.update pair.reports side.opposite
      (pair.reports side.opposite ++ answered.2)
    answers := pair.answers ++ answered.1.toList.map (side, ·) }

def step (σ : Scheme) (e : EntityName) (pair : Pair) : Move → Pair
  | .ask side target =>
    { pair with
      requests := pair.requests ++ [(side, ((pair.peer side).discoveryRequest target).name)] }
  | .answer place timestamp =>
    match pair.requests[place]? with
    | none => pair
    | some (side, name) =>
      { pair with requests := pair.requests.eraseIdx place }.serve σ side name timestamp
  | .take place =>
    match pair.answers[place]? with
    | none => pair
    | some (side, response) =>
      { pair with answers := pair.answers.eraseIdx place }.act σ side (.learn response)
  | .loseRequest place => { pair with requests := pair.requests.eraseIdx place }
  | .loseAnswer place => { pair with answers := pair.answers.eraseIdx place }
  | .miss side => pair.act σ side (.miss e)

def run (σ : Scheme) (e : EntityName) (pair : Pair) (moves : List Move) : Pair :=
  moves.foldl (step σ e) pair

variable {σ : Scheme} {e : EntityName} {pair : Pair}

theorem run_induction {motive : Pair → Prop}
    (hstep : ∀ pair move, motive pair → motive (pair.step σ e move)) (h : motive pair)
    (moves : List Move) : motive (pair.run σ e moves) := by
  induction moves generalizing pair with
  | nil => exact h
  | cons move moves ih => exact ih (hstep pair move h)

/-! What the peers report about the player. -/

/-- Both peers can come about, the player is another one, and the last report of each peer about it is
that it was dropped exactly if the peer does not know it. -/
structure Candid (σ : Scheme) (e : EntityName) (pair : Pair) : Prop where
  reachable : ∀ side, (pair.peer side).Reachable σ
  foreign : ∀ side, e ≠ (pair.peer side).self.name
  reported : ∀ side, lastLocation e (pair.reports side) = some .dropped ↔
    (pair.peer side).player? e = none

theorem Candid.act (h : Candid σ e pair) (side : Side) {operation : Peer.Operation}
    (hreport : (lastLocation e ((pair.peer side).step σ operation).2).or
        (lastLocation e (pair.reports side)) = some .dropped ↔
      (((pair.peer side).step σ operation).1).player? e = none) :
    Candid σ e (pair.act σ side operation) := by
  refine ⟨fun s => ?_, fun s => ?_, fun s => ?_⟩
  · by_cases hside : s = side
    · subst hside
      simp only [Pair.act, Function.update_self]
      exact (h.reachable s).step operation
    · simp only [Pair.act, Function.update_of_ne hside]
      exact h.reachable s
  · by_cases hside : s = side
    · subst hside
      have hname : ((pair.peer s).step σ operation).1.self.name = (pair.peer s).self.name :=
        congrArg Peer.Identity.name (Peer.identity_step ..)
      simp only [Pair.act, Function.update_self, hname]
      exact h.foreign s
    · simp only [Pair.act, Function.update_of_ne hside]
      exact h.foreign s
  · by_cases hside : s = side
    · subst hside
      simp only [Pair.act, Function.update_self, Event.lastLocation_append]
      exact hreport
    · simp only [Pair.act, Function.update_of_ne hside]
      exact h.reported s

theorem lastLocation_answerDiscovery (peer : Peer) (name : Name) (timestamp : UInt64) :
    lastLocation e (peer.answerDiscovery σ name timestamp).2 = none := by
  unfold Peer.answerDiscovery Peer.signed
  split
  · rfl
  · dsimp only
    split
    · rfl
    · split <;> rfl

theorem Candid.serve (h : Candid σ e pair) (side : Side) (name : Name) (timestamp : UInt64) :
    Candid σ e (pair.serve σ side name timestamp) := by
  refine ⟨h.reachable, h.foreign, fun s => ?_⟩
  by_cases hside : s = side.opposite
  · subst hside
    simp only [Pair.serve, Function.update_self, Event.lastLocation_append,
      lastLocation_answerDiscovery, Option.none_or]
    exact h.reported _
  · simp only [Pair.serve, Function.update_of_ne hside]
    exact h.reported s

theorem Candid.step (h : Candid σ e pair) (move : Move) : Candid σ e (pair.step σ e move) := by
  cases move with
  | ask side target => exact ⟨h.reachable, h.foreign, h.reported⟩
  | loseRequest place => exact ⟨h.reachable, h.foreign, h.reported⟩
  | loseAnswer place => exact ⟨h.reachable, h.foreign, h.reported⟩
  | answer place timestamp =>
      simp only [Pair.step]
      split
      · exact h
      · next side name _ =>
          have hrest : Candid σ e { pair with requests := pair.requests.eraseIdx place } :=
            ⟨h.reachable, h.foreign, h.reported⟩
          exact hrest.serve side name timestamp
  | take place =>
      simp only [Pair.step]
      split
      · exact h
      · next side response _ =>
          have hrest : Candid σ e { pair with answers := pair.answers.eraseIdx place } :=
            ⟨h.reachable, h.foreign, h.reported⟩
          exact hrest.act side (Peer.dropped_learn (h.reported side) response)
  | miss side => exact h.act side (Peer.dropped_miss (h.reported side))

/-! A player that is gone. -/

/-- Neither peer knows the player, and no answer under way lists it. -/
structure Extinct (e : EntityName) (pair : Pair) : Prop where
  unknown : ∀ side, (pair.peer side).player? e = none
  unlisted : ∀ answer ∈ pair.answers, ¬ answer.2.Lists e

theorem Extinct.act (h : Extinct e pair) (side : Side) {operation : Peer.Operation}
    (hunknown : ((pair.peer side).step σ operation).1.player? e = none) :
    Extinct e (pair.act σ side operation) := by
  refine ⟨fun s => ?_, h.unlisted⟩
  by_cases hside : s = side
  · subst hside
    simp only [Pair.act, Function.update_self]
    exact hunknown
  · simp only [Pair.act, Function.update_of_ne hside]
    exact h.unknown s

theorem Extinct.step (h : Extinct e pair) (hcandid : Candid σ e pair) (move : Move) :
    Extinct e (pair.step σ e move) := by
  have hfewer : ∀ place, ∀ answer ∈ pair.answers.eraseIdx place, ¬ answer.2.Lists e :=
    fun place answer hanswer => h.unlisted answer (List.mem_of_mem_eraseIdx hanswer)
  cases move with
  | ask side target => exact ⟨h.unknown, h.unlisted⟩
  | loseRequest place => exact ⟨h.unknown, h.unlisted⟩
  | loseAnswer place => exact ⟨h.unknown, hfewer place⟩
  | answer place timestamp =>
      simp only [Pair.step]
      split
      · exact h
      · next side name _ =>
          refine ⟨h.unknown, List.forall_mem_append.2 ⟨h.unlisted, fun answer hanswer hlists => ?_⟩⟩
          obtain ⟨response, hresponse, rfl⟩ := List.mem_map.1 hanswer
          rw [Option.mem_toList] at hresponse
          rcases (hcandid.reachable side.opposite).of_lists hresponse hlists with hown | hknown
          · exact hcandid.foreign _ hown
          · rw [h.unknown] at hknown
            cases hknown
  | take place =>
      simp only [Pair.step]
      split
      · exact h
      · next side response hplace =>
          have hrest : Extinct e { pair with answers := pair.answers.eraseIdx place } :=
            ⟨h.unknown, hfewer place⟩
          have hunlisted := h.unlisted _ (List.mem_of_getElem? hplace)
          exact hrest.act side (Peer.player?_learn_eq_none (h.unknown side) hunlisted)
  | miss side => exact h.act side (Peer.player?_miss_eq_none (h.unknown side))

theorem Candid.run (h : Candid σ e pair) (moves : List Move) : Candid σ e (pair.run σ e moves) :=
  run_induction (fun _ move hpair => hpair.step move) h moves

theorem Extinct.run (h : Extinct e pair) (hcandid : Candid σ e pair) (moves : List Move) :
    Extinct e (pair.run σ e moves) :=
  (run_induction (motive := fun pair => Candid σ e pair ∧ Extinct e pair)
    (fun _ move hpair => ⟨hpair.1.step move, hpair.2.step hpair.1 move⟩) ⟨hcandid, h⟩ moves).2

/-- The octree of a peer in a candid pair has no place for a player that the peer does not know. -/
theorem Candid.places_eq_nil (h : Candid σ e pair) {side : Side}
    (hunknown : (pair.peer side).player? e = none) : (pair.peer side).octree.places e = [] :=
  (h.reachable side).consistent.places_stranger (h.foreign side) hunknown

/-- From two peers that know a player which has stopped, after any steps in any order: what a peer
last reported of the player is that it was dropped exactly if the player is not in its table, and
then nowhere in its octree either. Once neither knows the player and no answer under way lists it,
it is gone from both for all further steps. -/
theorem gone_of_dropped (hreach : ∀ side, (pair.peer side).Reachable σ)
    (hheld : ∀ side, ((pair.peer side).player? e).isSome = true)
    (hsilent : ∀ side, pair.reports side = []) (moves : List Move) :
    let after := pair.run σ e moves
    (∀ side, lastLocation e (after.reports side) = some .dropped ↔
      (after.peer side).player? e = none) ∧
    (∀ side, (after.peer side).player? e = none → (after.peer side).octree.places e = []) ∧
    ((∀ side, (after.peer side).player? e = none) →
      (∀ answer ∈ after.answers, ¬ answer.2.Lists e) → ∀ more side,
        ((after.run σ e more).peer side).player? e = none ∧
          ((after.run σ e more).peer side).octree.places e = []) := by
  intro after
  have hstart : Candid σ e pair := by
    refine ⟨hreach, fun side => ?_, fun side => ?_⟩
    · obtain ⟨r, hr⟩ := Option.isSome_iff_exists.1 (hheld side)
      rw [← Peer.name_of_player? hr]
      exact (hreach side).consistent.foreign r (Peer.mem_of_player? hr)
    · rw [hsilent, ← Option.not_isSome_iff_eq_none, hheld]
      exact iff_of_false (by simp [lastLocation]) (by decide)
  have hafter : Candid σ e after := hstart.run moves
  refine ⟨hafter.reported, fun side => hafter.places_eq_nil, fun hunknown hunlisted more side => ?_⟩
  have hextinct : Extinct e (after.run σ e more) := Extinct.run ⟨hunknown, hunlisted⟩ hafter more
  have hunknown' := hextinct.unknown side
  exact ⟨hunknown', (hafter.run more).places_eq_nil hunknown'⟩

/-- Two peers that track one leaf and have learned of the same player there. -/
def acquainted (alice carol : Peer) : Pair where
  peer
    | .one => alice.run .sealing meeting
    | .other => carol.run .sealing meeting
  reports _ := []
  requests := []
  answers := []
where
  meeting : List Peer.Operation :=
    [.track ⟨[0, 0]⟩, .learn ⟨.root, Text.bytesOf "/hub:bob 0/0\n", 0, 0,
      Response.signable .root (Text.bytesOf "/hub:bob 0/0\n") 0 0, []⟩]

theorem exists_acquainted {P : Pair → Prop} [DecidablePred P]
    (h : (Peer.made? { hub := "/hub", depth := 2, worldBits := 2, dropThreshold := 0 } "alice"
      ⟨.zero, .zero, .zero⟩ []).any (fun alice =>
        (Peer.made? { hub := "/hub", depth := 2, worldBits := 2, dropThreshold := 0 } "carol"
          ⟨.zero, .zero, .zero⟩ []).any fun carol => decide (P (acquainted alice carol))) = true) :
    ∃ pair : Pair, (∀ side, (pair.peer side).Reachable .sealing) ∧ (∀ side, pair.reports side = []) ∧
      P pair := by
  obtain ⟨alice, halice, hrest⟩ := Peer.exists_make h
  obtain ⟨carol, hcarol, hP⟩ := Peer.exists_make hrest
  refine ⟨acquainted alice carol, fun side => ?_, fun _ => rfl, of_decide_eq_true hP⟩
  cases side with
  | one => exact ⟨_, _, _, _, _, _, halice, rfl⟩
  | other => exact ⟨_, _, _, _, _, _, hcarol, rfl⟩

/-- Two peers that have both dropped their player: it is gone for good. -/
theorem gone_of_dropped_bob : ∃ pair : Pair,
    (∀ side, (pair.peer side).Reachable .sealing) ∧ (∀ side, pair.reports side = []) ∧
    (∀ side, ((pair.peer side).player? ⟨"/hub", "bob"⟩).isSome = true) ∧
    let after := pair.run .sealing ⟨"/hub", "bob"⟩ [.miss .one, .miss .other]
    (∀ side, lastLocation ⟨"/hub", "bob"⟩ (after.reports side) = some .dropped) ∧
    ∀ more side, ((after.run .sealing ⟨"/hub", "bob"⟩ more).peer side).player? ⟨"/hub", "bob"⟩ = none ∧
      ((after.run .sealing ⟨"/hub", "bob"⟩ more).peer side).octree.places ⟨"/hub", "bob"⟩ = [] := by
  obtain ⟨pair, hreach, hsilent, hheld, hdropped, hnone⟩ :
      ∃ pair : Pair, (∀ side, (pair.peer side).Reachable .sealing) ∧
        (∀ side, pair.reports side = []) ∧
        (∀ side, ((pair.peer side).player? ⟨"/hub", "bob"⟩).isSome = true) ∧
        (∀ side, lastLocation ⟨"/hub", "bob"⟩ ((pair.run .sealing ⟨"/hub", "bob"⟩
          [.miss .one, .miss .other]).reports side) = some .dropped) ∧
        (pair.run .sealing ⟨"/hub", "bob"⟩ [.miss .one, .miss .other]).answers = [] :=
    exists_acquainted (by decide +kernel)
  obtain ⟨hreported, -, hgone⟩ :=
    gone_of_dropped hreach hheld hsilent [.miss .one, .miss .other]
  have hunlisted : ∀ answer ∈ (pair.run .sealing ⟨"/hub", "bob"⟩
      [.miss .one, .miss .other]).answers, ¬ answer.2.Lists ⟨"/hub", "bob"⟩ := by
    rw [hnone]
    exact fun answer hanswer => absurd hanswer List.not_mem_nil
  exact ⟨pair, hreach, hsilent, hheld, hdropped,
    hgone (fun side => (hreported side).1 (hdropped side)) hunlisted⟩

/-- Dropped is not gone: of two peers that know a player, the first drops it and takes it up
again from an answer of the second, and then the second drops it. Each has reported it dropped, and
the first has it in its table and in its octree. -/
theorem dropped_bob_returns : ∃ pair : Pair,
    (∀ side, (pair.peer side).Reachable .sealing) ∧ (∀ side, pair.reports side = []) ∧
    (pair.peer .one).geometry = (pair.peer .other).geometry ∧
    (pair.peer .one).broadcast = (pair.peer .other).broadcast ∧
    (∀ side, (pair.peer side).isTracked ⟨[0, 0]⟩ = true ∧
      ((pair.peer side).player? ⟨"/hub", "bob"⟩).isSome = true) ∧
    let after := pair.run .sealing ⟨"/hub", "bob"⟩
      [.miss .one, .ask .one (.region ⟨[0, 0]⟩), .answer 0 0, .take 0, .miss .other]
    (∀ side, Event.located ⟨"/hub", "bob"⟩ .dropped ∈ after.reports side) ∧
    ((after.peer .one).player? ⟨"/hub", "bob"⟩).isSome = true ∧
      (after.peer .one).octree.places ⟨"/hub", "bob"⟩ = [⟨[0, 0]⟩] :=
  exists_acquainted (by decide +kernel)

end Pair

end RegionSync
