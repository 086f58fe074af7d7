import RegionSync.Proofs.Instance.Stake
import RegionSync.Proofs.Instance.Unstarted

/-!
A start of an instance that may track leaves. It registers the player, publishes a position and tracks
the player's leaf, and a refusal on its way takes back what it has done: a start that fails leaves what
it found, and one without a refusal adds what it is there for.
-/

namespace RegionSync

namespace Slot

/-- The instance, the registrations and the call after these turns, with nothing in between, if each is
possible in its time. -/
def run (i : Instance) (live : List Registration) (slot : Slot) :
    List Turn → Option (Instance × List Registration × Slot)
  | [] => some (i, live, slot)
  | turn :: turns => (slot.next i live turn).bind fun (i, live, slot) => run i live slot turns

/-- The call is over, or can run on, whatever the transport replies to what it waits for. -/
def Unstuck (i : Instance) (live : List Registration) (slot : Slot) : Prop :=
  ∀ reply : Except TransportError RegistrationId, (∀ id, reply = .ok id → id ∉ live.map (·.id)) →
    (∃ result, slot = .done result) ∨
      ∃ turn ∈ [Turn.grant, .answer reply, .resume], (slot.next i live turn).isSome = true

variable {i i' : Instance} {live live' : List Registration} {slot slot' : Slot} {call : Call}
  {signal : Signal} {turn : Turn}

theorem of_next_heard (h : (heard call signal).next i live turn = some (i', live', slot)) :
    turn = .resume ∧ i' = (call.resume i signal).after ∧ live' = live ∧
      slot = ofProgress (call.resume i signal).progress := by
  cases turn with
  | grant => cases h
  | answer reply => cases h
  | resume =>
      cases h
      exact ⟨rfl, rfl, rfl, rfl⟩

theorem of_next_waits (hneed : call.need i ≠ .lock)
    (h : (waits call).next i live turn = some (i', live', slot)) :
    ∃ reply signal, turn = .answer reply ∧
      Registration.serve live (call.need i) reply = some (signal, live') ∧ i' = i ∧
      slot = heard call signal := by
  cases turn with
  | grant =>
      rw [next, if_neg fun hpossible => hneed hpossible.1] at h
      cases h
  | answer reply =>
      obtain ⟨⟨signal, served⟩, hserve, heq⟩ := Option.map_eq_some_iff.1 h
      cases heq
      exact ⟨reply, signal, rfl, hserve, rfl, rfl⟩
  | resume => cases h

/-- The result of the call, if it is over. -/
def result? : Slot → Option (Except PeerError Unit)
  | done result => some result
  | _ => none

theorem result?_eq_some_iff {result : Except PeerError Unit} :
    slot.result? = some result ↔ slot = done result := by
  cases slot with
  | done other => simp [result?]
  | waits call => simp [result?]
  | heard call signal => simp [result?]

end Slot

/-- A name is registered under a number that no other one has, or is refused. -/
theorem Registration.serve_cases {live live' : List Registration} {name : Name} {handler : Handler}
    {reply : Except TransportError RegistrationId} {signal : Signal}
    (h : serve live (.registration name handler) reply = some (signal, live')) :
    signal = .registered reply ∧
      ((∃ id, reply = .ok id ∧ id ∉ live.map (·.id) ∧ live' = live ++ [⟨id, name, handler⟩]) ∨
        ∃ e, reply = .error e ∧ live' = live) := by
  cases reply with
  | ok id =>
      obtain ⟨hid, hsignal, hlive⟩ := serve_registration h
      exact ⟨hsignal, Or.inl ⟨id, rfl, hid, hlive⟩⟩
  | error e =>
      cases h
      exact ⟨rfl, Or.inr ⟨e, rfl, rfl⟩⟩

/-- A transport can always refuse a name, and register it under a new number. -/
theorem Registration.isSome_serve {live : List Registration}
    {reply : Except TransportError RegistrationId}
    (hfresh : ∀ id, reply = .ok id → id ∉ live.map (·.id)) (name : Name) (handler : Handler) :
    (serve live (.registration name handler) reply).isSome = true := by
  cases reply with
  | error e => rfl
  | ok id =>
      have hfree : live.any (·.id == id) = false := by
        rw [List.any_eq_false]
        intro r hr
        rw [beq_iff_eq]
        rintro rfl
        exact hfresh r.id rfl (List.mem_map_of_mem hr)
      rw [serve, if_neg (Bool.eq_false_iff.1 hfree)]
      rfl

namespace Instance

/-- No call is on its way, and nobody has started or stopped the instance. -/
structure Ready (i : Instance) (live : List Registration) : Prop where
  concordant : i.peer.Concordant
  ids : (live.map (·.id)).Nodup
  free : i.locked = false
  perm : live.Perm i.peer.registrations
  unstarted : i.Unstarted

/-- What was registered and tracked before still is, and nothing else. -/
structure Restored (i : Instance) (live : List Registration) (i' : Instance)
    (live' : List Registration) : Prop where
  live : live' = live
  subscriptions : i'.peer.subscriptions = i.peer.subscriptions
  tracked : i'.peer.tracked = i.peer.tracked
  marks : ∀ p, i'.peer.isTracked p = i.peer.isTracked p
  running : i'.isRunning = false
  ready : i'.Ready live'

/-- The instance runs and tracks the player's leaf. The player's registration has come to the others,
and one for discovery if none has served the leaf before. -/
structure Begun (i : Instance) (live : List Registration) (i' : Instance)
    (live' : List Registration) : Prop where
  running : i'.isRunning = true
  marked : i'.peer.isTracked i'.peer.self.region = true
  added : ∃ id id',
    let region := i.peer.subscriptionFor i'.peer.self.region
    let new := if i.peer.hasSubscription region then [] else [(region, id')]
    i'.registration = some id ∧ i'.peer.subscriptions = i.peer.subscriptions ++ new ∧
      live' = live ++ ⟨id, i.peer.self.name.playerName, .player⟩ ::
        new.map fun (region, id) => ⟨id, i.peer.regionName region, .discovery⟩

/-- The call that starts the instance, after these turns. -/
def runStart (i : Instance) (live : List Registration) (turns : List Turn) :
    Option (Instance × List Registration × Slot) :=
  Slot.run i.start.after live (.ofProgress i.start.progress) turns

/-! The course of a start. -/

/-- The leaf that a start finds the player in. -/
def startLeaf (i : Instance) : RegionPath :=
  i.peer.publish.peer.self.region

def playerRegistration (i : Instance) (id : RegistrationId) : Registration :=
  ⟨id, i.peer.self.name.playerName, .player⟩

def leafRegistration (i : Instance) (id : RegistrationId) : Registration :=
  ⟨id, i.peer.regionName (i.peer.subscriptionFor i.startLeaf), .discovery⟩

/-- A start is on its way. -/
def called (i : Instance) : Instance :=
  { i with started := true }

/-- The player is registered under this number, and its position is out. -/
def announced (i : Instance) (id : RegistrationId) : Instance :=
  { i with peer := i.peer.publish.peer, started := true, registration := some id }

/-- How far a start can have come: the turns that it took, and what they made of the instance, of the
registrations and of the call. -/
inductive Course (i : Instance) (live : List Registration) :
    List Turn → Instance → List Registration → Slot → Prop
  | called : Course i live [] i.called live (.waits .announce)
  | refused (e : TransportError) : Course i live [.answer (.error e)] i.called live
      (.heard .announce (.registered (.error e)))
  | registered {id : RegistrationId} (hid : id ∉ live.map (·.id)) :
      Course i live [.answer (.ok id)] i.called (live ++ [i.playerRegistration id])
        (.heard .announce (.registered (.ok id)))
  | announced {id : RegistrationId} (hid : id ∉ live.map (·.id)) :
      Course i live [.answer (.ok id), .resume] (i.announced id)
        (live ++ [i.playerRegistration id]) (.waits (.track i.startLeaf .start))
  | subscribing {id : RegistrationId} (hid : id ∉ live.map (·.id))
      (hnew : i.peer.hasSubscription (i.peer.subscriptionFor i.startLeaf) = false) :
      Course i live [.answer (.ok id), .resume, .grant] { i.announced id with locked := true }
        (live ++ [i.playerRegistration id]) (.waits (.subscribe i.startLeaf .start))
  | subscribed {id : RegistrationId} (id' : RegistrationId)
      (hnew : i.peer.hasSubscription (i.peer.subscriptionFor i.startLeaf) = false) :
      Course i live [.answer (.ok id), .resume, .grant, .answer (.ok id')]
        { i.announced id with locked := true }
        (live ++ [i.playerRegistration id, i.leafRegistration id'])
        (.heard (.subscribe i.startLeaf .start) (.registered (.ok id')))
  | unserved {id : RegistrationId} (hid : id ∉ live.map (·.id)) (e : TransportError) :
      Course i live [.answer (.ok id), .resume, .grant, .answer (.error e)]
        { i.announced id with locked := true } (live ++ [i.playerRegistration id])
        (.heard (.subscribe i.startLeaf .start) (.registered (.error e)))
  | withdrawing {id : RegistrationId} (hid : id ∉ live.map (·.id)) (e : TransportError) :
      Course i live [.answer (.ok id), .resume, .grant, .answer (.error e), .resume]
        { i.announced id with registration := none } (live ++ [i.playerRegistration id])
        (.waits (.withdraw id (.transport e)))
  | withdrawn (id : RegistrationId) (e : TransportError)
      (reply : Except TransportError RegistrationId) :
      Course i live [.answer (.ok id), .resume, .grant, .answer (.error e), .resume, .answer reply]
        { i.announced id with registration := none } live
        (.heard (.withdraw id (.transport e)) (.removed (.ok ())))
  | failed {turns : List Turn} {i' : Instance} {live' : List Registration} {e : TransportError}
      (hlength : turns.length ≤ 7) (he : .answer (.error e) ∈ turns)
      (h : Restored i live i' live') : Course i live turns i' live' (.done (.error (.transport e)))
  | begun {turns : List Turn} {i' : Instance} {live' : List Registration}
      (hlength : turns.length ≤ 7) (hclean : ∀ e, .answer (.error e) ∉ turns)
      (h : Begun i live i' live') : Course i live turns i' live' (.done (.ok ()))

variable {i i' j j' : Instance} {live live' held held' : List Registration} {slot slot' : Slot}
  {turns : List Turn} {turn : Turn} {id id' : RegistrationId} {leaf : RegionPath}

/-! Before and after a publication. -/

theorem Ready.publish (h : i.Ready live) : i.peer.publish.peer.Concordant := by
  have hkeeps : Peer.Operation.publish.retracks = false := rfl
  exact h.concordant.step (σ := .sealing) hkeeps

theorem identity_publish (peer : Peer) : peer.publish.peer.identity = peer.identity :=
  Peer.identity_step (σ := .sealing) peer .publish

/-- A publication leaves what is tracked and registered as it is. -/
theorem Ready.restored (h : i.Ready live) (hfree : i'.locked = false) (hunstarted : i'.Unstarted)
    (hpeer : i'.peer = i.peer ∨ i'.peer = i.peer.publish.peer) : Restored i live i' live := by
  obtain ⟨hconcordant, hidentity, htracked, hsubscriptions, hmarks⟩ : i'.peer.Concordant ∧
      i'.peer.identity = i.peer.identity ∧ i'.peer.tracked = i.peer.tracked ∧
      i'.peer.subscriptions = i.peer.subscriptions ∧
      ∀ p, i'.peer.isTracked p = i.peer.isTracked p := by
    rcases hpeer with hpeer | hpeer
    · rw [hpeer]
      exact ⟨h.concordant, rfl, rfl, rfl, fun _ => rfl⟩
    · rw [hpeer]
      exact ⟨h.publish, identity_publish i.peer, Peer.records_publish i.peer⟩
  refine ⟨rfl, hsubscriptions, htracked, hmarks, ?_, hconcordant, h.ids, hfree, ?_, hunstarted⟩
  · rw [isRunning, hunstarted.started]
    rfl
  · rw [Peer.registrations_congr hidentity hsubscriptions]
    exact h.perm

theorem hasSubscription_announced (i : Instance) (id : RegistrationId) :
    (i.announced id).peer.hasSubscription ((i.announced id).peer.subscriptionFor i.startLeaf) =
      i.peer.hasSubscription (i.peer.subscriptionFor i.startLeaf) := by
  rw [announced, Peer.subscriptionFor_congr (identity_publish i.peer), Peer.hasSubscription,
    (Peer.records_publish i.peer).2.1, Peer.hasSubscription]

theorem Ready.hasSubscription (h : i.Ready live)
    (htracked : i.peer.publish.peer.isTracked i.startLeaf = true) :
    i.peer.hasSubscription (i.peer.subscriptionFor i.startLeaf) = true := by
  rw [(Peer.records_publish i.peer).2.2] at htracked
  rw [Peer.hasSubscription_iff, h.concordant.served]
  exact ⟨i.startLeaf, (h.concordant.swept i.startLeaf).2 htracked, rfl⟩

/-! The end of a start. -/

/-- The subscriptions that a start adds. -/
def added (i : Instance) (id : RegistrationId) : List (RegionPath × RegistrationId) :=
  if i.peer.hasSubscription (i.peer.subscriptionFor i.startLeaf) then []
  else [(i.peer.subscriptionFor i.startLeaf, id)]

/-- With its leaf marked a start succeeds, and the loops begin. -/
theorem begun_finishStart (hstarted : j.started = true) (hstopped : j.stopped = false)
    (hregistration : j.registration = some id) (hself : j.peer.self = i.peer.publish.peer.self)
    (hmarked : j.peer.isTracked i.startLeaf = true)
    (hsubscriptions : j.peer.subscriptions = i.peer.subscriptions ++ i.added id')
    (live : List Registration) :
    (Call.finishStart j i.startLeaf).progress = .done (.ok ()) ∧
      Begun i live (Call.finishStart j i.startLeaf).after (live ++ i.playerRegistration id ::
        (i.added id').map fun (region, id) => ⟨id, i.peer.regionName region, .discovery⟩) := by
  have hleaf : j.peer.self.region = i.startLeaf := congrArg LocalPlayer.region hself
  have hafter : (Call.finishStart j i.startLeaf).after = { j with tasks := j.tasks + 3 } := by
    rw [Call.finishStart, takeOn, hstopped]
    rfl
  refine ⟨rfl, ?_⟩
  rw [hafter]
  refine ⟨?_, ?_, id, id', hregistration, ?_, ?_⟩
  · rw [isRunning]
    dsimp only
    rw [hstarted, hstopped]
    rfl
  · dsimp only
    rw [hleaf]
    exact hmarked
  · dsimp only
    rw [hleaf]
    exact hsubscriptions
  · dsimp only
    rw [hleaf]
    rfl

/-- With the subscription noted the leaf is marked. -/
theorem Ready.begun_markTracked (h : i.Ready live) (hstarted : j.started = true)
    (hstopped : j.stopped = false) (hregistration : j.registration = some id)
    (hpeer : j.peer =
      { i.peer.publish.peer with subscriptions := i.peer.subscriptions ++ i.added id' }) :
    (Call.markTracked j i.startLeaf .start).progress = .done (.ok ()) ∧
      Begun i live (Call.markTracked j i.startLeaf .start).after (live ++ i.playerRegistration id ::
        (i.added id').map fun (region, id) => ⟨id, i.peer.regionName region, .discovery⟩) := by
  have hleaf : j.peer.octree.isLeaf i.startLeaf = true := by
    rw [hpeer]
    exact h.publish.consistent.leaf
  obtain ⟨after, htrack, hmark⟩ := Call.markTracked_of_isLeaf .start hleaf
  obtain ⟨octree, tracked, hoctree, rfl⟩ := Peer.exists_of_track htrack
  have hmarked := (Octree.isTracked_track hoctree i.startLeaf).2 (Or.inr rfl)
  rw [hmark, Call.trackEnded]
  refine begun_finishStart ?_ ?_ ?_ ?_ ?_ ?_ live
  · exact hstarted
  · exact hstopped
  · exact hregistration
  · dsimp only
    rw [hpeer]
  · exact hmarked
  · dsimp only
    rw [hpeer]

/-! The turns of a start. -/

theorem Ready.resume_refused (h : i.Ready live) (e : TransportError) :
    Call.resume i.called .announce (.registered (.error e)) = Call.endWith i (.error (.transport e)) := by
  obtain ⟨hstarted, -, hregistration, -⟩ := h.unstarted
  cases i
  cases hstarted
  cases hregistration
  rfl

theorem Ready.resume_registered (h : i.Ready live) (id : RegistrationId) :
    Call.resume i.called .announce (.registered (.ok id)) =
      Call.waitAt (i.announced id) (.track i.startLeaf .start) :=
  Call.resume_announce (i := i.called) h.concordant.consistent id

/-- Under a subscription that stands, the leaf is tracked with the lock, if it is not already. -/
theorem Ready.resume_served (h : i.Ready live) (id : RegistrationId)
    (hserved : i.peer.hasSubscription (i.peer.subscriptionFor i.startLeaf) = true) :
    (Call.resume (i.announced id) (.track i.startLeaf .start) .locked).progress = .done (.ok ()) ∧
      Begun i live (Call.resume (i.announced id) (.track i.startLeaf .start) .locked).after
        (live ++ [i.playerRegistration id]) := by
  have hadded : i.added id = [] := if_pos hserved
  have hrecords : (i.announced id).peer.subscriptions = i.peer.subscriptions ++ i.added id := by
    rw [hadded, List.append_nil]
    exact (Peer.records_publish i.peer).2.1
  rw [Call.resume]
  by_cases htracked : (i.announced id).peer.isTracked i.startLeaf = true
  · rw [if_pos htracked]
    have hbegun := begun_finishStart (j := i.announced id) rfl h.unstarted.stopped rfl rfl htracked
      hrecords live
    rw [hadded] at hbegun
    exact hbegun
  · rw [if_neg htracked, if_pos ((hasSubscription_announced i id).trans hserved)]
    have hbegun := h.begun_markTracked (j := i.announced id) rfl h.unstarted.stopped rfl
      (by rw [← hrecords]; rfl)
    rw [hadded] at hbegun
    exact hbegun

theorem Ready.resume_unserved (h : i.Ready live) (id : RegistrationId)
    (hnew : i.peer.hasSubscription (i.peer.subscriptionFor i.startLeaf) = false) :
    Call.resume (i.announced id) (.track i.startLeaf .start) .locked =
      Call.waitAt { i.announced id with locked := true } (.subscribe i.startLeaf .start) := by
  have huntracked : ¬ (i.announced id).peer.isTracked i.startLeaf = true := by
    intro htracked
    rw [h.hasSubscription htracked] at hnew
    cases hnew
  rw [Call.resume, if_neg huntracked, if_neg]
  rw [Bool.not_eq_true]
  exact (hasSubscription_announced i id).trans hnew

/-- The subscription is noted, and the leaf is marked. -/
theorem Ready.resume_subscribed (h : i.Ready live) (id id' : RegistrationId)
    (hnew : i.peer.hasSubscription (i.peer.subscriptionFor i.startLeaf) = false) :
    let step := Call.resume { i.announced id with locked := true } (.subscribe i.startLeaf .start)
      (.registered (.ok id'))
    step.progress = .done (.ok ()) ∧
      Begun i live step.after (live ++ [i.playerRegistration id, i.leafRegistration id']) := by
  intro step
  have hadded : i.added id' = [(i.peer.subscriptionFor i.startLeaf, id')] :=
    if_neg (Bool.eq_false_iff.1 hnew)
  have hregion : i.peer.publish.peer.subscriptionFor i.startLeaf =
      i.peer.subscriptionFor i.startLeaf := Peer.subscriptionFor_congr (identity_publish i.peer) _
  have hunserved : i.peer.subscriptionFor i.startLeaf ∉
      i.peer.publish.peer.subscriptions.map (·.1) := by
    rw [(Peer.records_publish i.peer).2.1, ← Peer.hasSubscription_iff, hnew]
    exact Bool.false_ne_true
  have hnoted : i.peer.publish.peer.subscribe (i.peer.publish.peer.subscriptionFor i.startLeaf) id' =
      { i.peer.publish.peer with subscriptions := i.peer.subscriptions ++ i.added id' } := by
    rw [hregion, Peer.subscribe_of_not_mem hunserved, (Peer.records_publish i.peer).2.1, hadded]
  have hbegun := h.begun_markTracked (j := { i.announced id with
    peer := (i.announced id).peer.subscribe ((i.announced id).peer.subscriptionFor i.startLeaf) id'
    locked := true }) rfl h.unstarted.stopped rfl hnoted
  rw [hadded] at hbegun
  exact hbegun

/-- The subscription is refused, and the player's registration is given up. -/
theorem Ready.resume_refusedLeaf (h : i.Ready live) (id : RegistrationId) (e : TransportError) :
    let step := Call.resume { i.announced id with locked := true } (.subscribe i.startLeaf .start)
      (.registered (.error e))
    step.progress = .waits (.withdraw id (.transport e)) ∧
      step.after = { i.announced id with registration := none } := by
  refine ⟨rfl, ?_⟩
  have hfree := h.free
  cases i
  cases hfree
  rfl

/-- What a start that failed is left with. -/
theorem Ready.resume_withdrawn (h : i.Ready live) (id : RegistrationId) (e : TransportError) :
    let step := Call.resume { i.announced id with registration := none }
      (.withdraw id (.transport e)) (.removed (.ok ()))
    step.progress = .done (.error (.transport e)) ∧ Restored i live step.after live :=
  ⟨rfl, h.restored h.free ⟨rfl, h.unstarted.stopped, rfl, h.unstarted.tasks⟩ (Or.inr rfl)⟩

theorem leafRegistration_announced (i : Instance) (id id' : RegistrationId) :
    (⟨id', (i.announced id).peer.regionName ((i.announced id).peer.subscriptionFor i.startLeaf),
      .discovery⟩ : Registration) = i.leafRegistration id' := by
  rw [leafRegistration, announced, Peer.subscriptionFor_congr (identity_publish i.peer),
    Peer.regionName_congr (identity_publish i.peer)]

/-- Whatever the transport replies, it takes the player's registration back, and no other. -/
theorem serve_withdraw (i : Instance) (hid : id ∉ live.map (·.id))
    (reply : Except TransportError RegistrationId) :
    Registration.serve (live ++ [i.playerRegistration id]) (.removal id) reply =
      some (.removed (.ok ()), live) := by
  have hothers : live.filter (·.id != id) = live := by
    rw [List.filter_eq_self]
    intro r hr
    rw [bne_iff_ne]
    rintro rfl
    exact hid (List.mem_map_of_mem hr)
  have hown : [i.playerRegistration id].filter (·.id != id) = [] := by
    simp [playerRegistration]
  rw [Registration.serve_removal (by simp [playerRegistration]), List.filter_append, hothers, hown,
    List.append_nil]

/-- What a turn makes of a start. -/
theorem Course.next (h : i.Ready live) (hcourse : Course i live turns j held slot)
    (hnext : slot.next j held turn = some (j', held', slot')) :
    Course i live (turns ++ [turn]) j' held' slot' := by
  cases hcourse with
  | called =>
      obtain ⟨reply, signal, rfl, hserve, rfl, rfl⟩ := Slot.of_next_waits Need.noConfusion hnext
      obtain ⟨rfl, ⟨id, rfl, hid, rfl⟩ | ⟨e, rfl, rfl⟩⟩ := Registration.serve_cases hserve
      · exact .registered hid
      · exact .refused e
  | refused e =>
      obtain ⟨rfl, rfl, rfl, rfl⟩ := Slot.of_next_heard hnext
      rw [h.resume_refused]
      exact .failed (by simp) (by simp) (h.restored h.free h.unstarted (Or.inl rfl))
  | registered hid =>
      obtain ⟨rfl, rfl, rfl, rfl⟩ := Slot.of_next_heard hnext
      rw [h.resume_registered]
      exact .announced hid
  | announced hid =>
      cases turn with
      | answer reply => cases reply <;> cases hnext
      | resume => cases hnext
      | grant =>
          rw [Slot.next, if_pos ⟨rfl, h.free⟩] at hnext
          cases hnext
          cases hnew : i.peer.hasSubscription (i.peer.subscriptionFor i.startLeaf) with
          | true =>
              obtain ⟨hdone, hbegun⟩ := h.resume_served _ hnew
              rw [hdone]
              exact .begun (by simp) (by simp) hbegun
          | false =>
              rw [h.resume_unserved _ hnew]
              exact .subscribing hid hnew
  | subscribing hid hnew =>
      obtain ⟨reply, signal, rfl, hserve, rfl, rfl⟩ := Slot.of_next_waits Need.noConfusion hnext
      obtain ⟨rfl, ⟨id', rfl, -, rfl⟩ | ⟨e, rfl, rfl⟩⟩ := Registration.serve_cases hserve
      · rw [List.append_assoc, i.leafRegistration_announced]
        exact .subscribed id' hnew
      · exact .unserved hid e
  | subscribed id' hnew =>
      obtain ⟨rfl, rfl, rfl, rfl⟩ := Slot.of_next_heard hnext
      obtain ⟨hdone, hbegun⟩ := h.resume_subscribed _ id' hnew
      rw [hdone]
      exact .begun (by simp) (by simp) hbegun
  | unserved hid e =>
      obtain ⟨rfl, rfl, rfl, rfl⟩ := Slot.of_next_heard hnext
      obtain ⟨hwaits, hafter⟩ := h.resume_refusedLeaf _ e
      rw [hwaits, hafter]
      exact .withdrawing hid e
  | withdrawing hid e =>
      obtain ⟨reply, signal, rfl, hserve, rfl, rfl⟩ := Slot.of_next_waits Need.noConfusion hnext
      rw [Call.need, serve_withdraw i hid] at hserve
      cases hserve
      exact .withdrawn _ e reply
  | withdrawn id e reply =>
      obtain ⟨rfl, rfl, rfl, rfl⟩ := Slot.of_next_heard hnext
      obtain ⟨hdone, hrestored⟩ := h.resume_withdrawn id e
      rw [hdone]
      exact .failed (by simp) (by simp) hrestored
  | failed hlength he hrestored => cases hnext
  | begun hlength hclean hbegun => cases hnext

theorem Course.run (h : i.Ready live) {before : List Turn}
    (hcourse : Course i live before j held slot)
    (hrun : Slot.run j held slot turns = some (j', held', slot')) :
    Course i live (before ++ turns) j' held' slot' := by
  induction turns generalizing before j held slot with
  | nil =>
      cases hrun
      rw [List.append_nil]
      exact hcourse
  | cons turn turns ih =>
      obtain ⟨⟨k, kept, further⟩, hnext, hrest⟩ := Option.bind_eq_some_iff.1 hrun
      have hall := ih (hcourse.next h hnext) hrest
      rw [List.append_assoc] at hall
      exact hall

theorem Ready.course (h : i.Ready live) (hrun : i.runStart live turns = some (j, held, slot)) :
    Course i live turns j held slot := by
  have hstart : i.start = Call.waitAt i.called .announce :=
    if_neg (Bool.eq_false_iff.1 h.unstarted.started)
  rw [runStart, hstart] at hrun
  exact Course.called.run h hrun

theorem Course.length_le (hcourse : Course i live turns j held slot) : turns.length ≤ 7 := by
  cases hcourse with
  | failed hlength he hrestored => exact hlength
  | begun hlength hclean hbegun => exact hlength
  | _ => simp

/-- A start never waits in vain: the lock is free, and the transport replies. -/
theorem Course.unstuck (h : i.Ready live) (hcourse : Course i live turns j held slot) :
    slot.Unstuck j held := by
  intro reply hfresh
  have hanswer : ∀ {j : Instance} {held : List Registration} {call : Call},
      (Registration.serve held (call.need j) reply).isSome = true →
      ((Slot.waits call).next j held (.answer reply)).isSome = true := by
    intro j held call hserve
    rw [Slot.next, Option.isSome_map]
    exact hserve
  cases hcourse with
  | called =>
      exact Or.inr ⟨.answer reply, by simp, hanswer (Registration.isSome_serve hfresh _ _)⟩
  | announced hid =>
      refine Or.inr ⟨.grant, by simp, ?_⟩
      rw [Slot.next, if_pos ⟨rfl, h.free⟩]
      rfl
  | subscribing hid hnew =>
      exact Or.inr ⟨.answer reply, by simp, hanswer (Registration.isSome_serve hfresh _ _)⟩
  | withdrawing hid e =>
      refine Or.inr ⟨.answer reply, by simp, hanswer ?_⟩
      rw [Call.need, serve_withdraw i hid]
      rfl
  | failed hlength he hrestored => exact Or.inl ⟨_, rfl⟩
  | begun hlength hclean hbegun => exact Or.inl ⟨_, rfl⟩
  | _ => exact Or.inr ⟨.resume, by simp, rfl⟩

/-! Starts between other calls. -/

/-- Between calls an instance is ready to be started. -/
theorem ready_of_sound {s : Session} (hs : s.Sound) (hunstarted : s.running.Unstarted)
    (hover : ∀ slot ∈ s.calls, ∃ result, slot = .done result) : s.running.Ready s.live := by
  obtain ⟨hfree, hperm⟩ := hs.free_of_over hover
  exact ⟨hs.concordant, hs.ids, hfree, hperm, hunstarted⟩

theorem Ready.sound (h : i.Ready live) : (⟨i, live, []⟩ : Session).Sound := by
  refine ⟨h.concordant, h.ids, Or.inl ⟨h.free, ?_, h.perm⟩⟩
  intro slot hslot
  cases hslot

/-- However the transport replies, the start of the instance comes to its end: it never waits in vain,
and takes seven turns at most. -/
def StartEnds (i : Instance) (live : List Registration) : Prop :=
  ∀ turns i' live' slot, i.runStart live turns = some (i', live', slot) →
    turns.length ≤ 7 ∧ slot.Unstuck i' live'

theorem Ready.startEnds (h : i.Ready live) : i.StartEnds live :=
  fun _ _ _ _ hrun => ⟨(h.course hrun).length_le, (h.course hrun).unstuck h⟩

/-- A start with a refusal on its way fails with one and leaves what it found. -/
theorem Ready.start_refused (h : i.Ready live) {result : Except PeerError Unit}
    (hrun : i.runStart live turns = some (i', live', .done result))
    (hrefused : ∃ e, .answer (.error e) ∈ turns) :
    (∃ e, .answer (.error e) ∈ turns ∧ result = .error (.transport e)) ∧
      Restored i live i' live' := by
  cases h.course hrun with
  | failed hlength he hrestored => exact ⟨⟨_, he, rfl⟩, hrestored⟩
  | begun hlength hclean hbegun =>
      obtain ⟨e, he⟩ := hrefused
      exact absurd he (hclean e)

/-- A start without a refusal succeeds. -/
theorem Ready.start_accepted (h : i.Ready live) {result : Except PeerError Unit}
    (hrun : i.runStart live turns = some (i', live', .done result))
    (hclean : ∀ e, .answer (.error e) ∉ turns) : result = .ok () ∧ Begun i live i' live' := by
  cases h.course hrun with
  | failed hlength he hrestored => exact absurd he (hclean _)
  | begun hlength hclean hbegun => exact ⟨rfl, hbegun⟩

/-- Whatever calls an instance has had, a start of it comes to its end. If a registration is refused on
the way, the start fails with a refusal, the registrations at the transport, the subscriptions and the
tracked leaves are what they were, and the instance does not run. It can be started again, at once or after
other calls: that start comes to its end as well, and without a refusal it succeeds and adds the player's
registration, and one for discovery if the player's leaf has none. -/
theorem failed_start_leaves_nothing {config : Config} {id : String} {position : Point}
    {secret : Bytes} {peer : Peer} (hmake : Peer.make config id position secret = .ok (.ok peer))
    {σ : Scheme} (actions : List Action) :
    let s := (Session.ofPeer peer).run σ actions
    (∀ slot ∈ s.calls, ∃ result, slot = .done result) →
    s.running.StartEnds s.live ∧
    ∀ turns i live result, s.running.runStart s.live turns = some (i, live, .done result) →
      (∃ e, .answer (.error e) ∈ turns) →
      (∃ e, .answer (.error e) ∈ turns ∧ result = .error (.transport e)) ∧
      Restored s.running s.live i live ∧
      ∀ more, let t := (Session.mk i live []).run σ more
        (∀ slot ∈ t.calls, ∃ result, slot = .done result) →
        t.running.StartEnds t.live ∧
        ∀ turns i' live' result, t.running.runStart t.live turns = some (i', live', .done result) →
          (∀ e, .answer (.error e) ∉ turns) → result = .ok () ∧ Begun t.running t.live i' live' := by
  intro s hover
  have hmade := Session.Sound.make hmake
  have hready : s.running.Ready s.live := ready_of_sound (hmade.run actions)
    (hmade.unstarted_run (Session.unstarted_ofPeer peer) actions) hover
  refine ⟨hready.startEnds, fun turns i live result hrun hrefused => ?_⟩
  obtain ⟨hfailed, hrestored⟩ := hready.start_refused hrun hrefused
  refine ⟨hfailed, hrestored, ?_⟩
  intro more t hover
  have hsound := hrestored.ready.sound
  have hagain : t.running.Ready t.live := ready_of_sound (hsound.run more)
    (hsound.unstarted_run hrestored.ready.unstarted more) hover
  exact ⟨hagain.startEnds, fun turns i' live' result hrun hclean =>
    hagain.start_accepted hrun hclean⟩

/-- The subscription is refused at the first start, beside one that stands, and granted at the second. -/
theorem failed_start_bob : ∃ config id position secret peer actions refused granted i live i' live',
    Peer.make config id position secret = .ok (.ok peer) ∧
      let s := (Session.ofPeer peer).run .sealing actions
      s.live.map (·.id) = [⟨4⟩] ∧
      s.running.runStart s.live refused =
        some (i, live, .done (.error (.transport (.network "down")))) ∧
      Restored s.running s.live i live ∧
      i.runStart live granted = some (i', live', .done (.ok ())) ∧ Begun i live i' live' ∧
      live'.map (·.id) = [⟨4⟩, ⟨6⟩, ⟨7⟩] := by
  let config : Config := { hub := "/hub", depth := 2, worldBits := 2 }
  let actions : List Action := [.demand (.track ⟨[3, 3]⟩), .turn 0 .grant,
    .turn 0 (.answer (.ok ⟨4⟩)), .turn 0 .resume]
  let refused : List Turn := [.answer (.ok ⟨5⟩), .resume, .grant, .answer (.error (.network "down")),
    .resume, .answer (.ok ⟨8⟩), .resume]
  let granted : List Turn := [.answer (.ok ⟨6⟩), .resume, .grant, .answer (.ok ⟨7⟩), .resume]
  have hmade : (Peer.made? config "bob" ⟨.zero, .zero, .zero⟩ []).any (fun peer =>
      decide (((Session.ofPeer peer).run .sealing actions).calls.map Slot.result? =
          [some (.ok ())] ∧
        ((Session.ofPeer peer).run .sealing actions).live.map (·.id) = [⟨4⟩]) &&
      (((Session.ofPeer peer).run .sealing actions).running.runStart
          ((Session.ofPeer peer).run .sealing actions).live refused).any fun failed =>
        decide (failed.2.2.result? = some (.error (.transport (.network "down")))) &&
          (failed.1.runStart failed.2.1 granted).any fun begun => decide
            (begun.2.2.result? = some (.ok ()) ∧ begun.2.1.map (·.id) = [⟨4⟩, ⟨6⟩, ⟨7⟩])) =
        true := by
    decide +kernel
  obtain ⟨peer, hmake, hruns⟩ := Peer.exists_make hmade
  have hrefused : ∃ e, .answer (.error e) ∈ refused := ⟨.network "down", by simp [refused]⟩
  have hgranted : ∀ e, .answer (.error e) ∉ granted := by simp [granted]
  clear_value config actions refused granted
  obtain ⟨hover, hruns⟩ := Bool.and_eq_true_iff.1 hruns
  obtain ⟨hcalls, hlive⟩ := of_decide_eq_true hover
  obtain ⟨⟨i, live, slot⟩, hfailed, hruns⟩ := (Option.any_eq_true _ _).1 hruns
  obtain ⟨hslot, hruns⟩ := Bool.and_eq_true_iff.1 hruns
  obtain rfl : slot = _ := Slot.result?_eq_some_iff.1 (of_decide_eq_true hslot)
  obtain ⟨⟨i', live', slot'⟩, hbegun, hruns⟩ := (Option.any_eq_true _ _).1 hruns
  obtain ⟨hslot', hids⟩ := of_decide_eq_true hruns
  obtain rfl : slot' = _ := Slot.result?_eq_some_iff.1 hslot'
  have hover : ∀ slot ∈ ((Session.ofPeer peer).run .sealing actions).calls,
      ∃ result, slot = .done result := by
    intro slot hslot
    have hresult := List.mem_map_of_mem (f := Slot.result?) hslot
    rw [hcalls, List.mem_singleton, Slot.result?_eq_some_iff] at hresult
    exact ⟨_, hresult⟩
  obtain ⟨-, hfails⟩ := failed_start_leaves_nothing hmake actions hover
  obtain ⟨-, hrestored, hagain⟩ := hfails refused i live _ hfailed hrefused
  have hnone : ∀ slot ∈ ((Session.mk i live []).run .sealing []).calls,
      ∃ result, slot = .done result := by
    intro slot hslot
    cases hslot
  obtain ⟨-, hsucceeds⟩ := hagain [] hnone
  obtain ⟨-, hadded⟩ := hsucceeds granted i' live' _ hbegun hgranted
  exact ⟨config, _, _, _, peer, actions, refused, granted, i, live, i', live', hmake, hlive, hfailed,
    hrestored, hbegun, hadded, hids⟩

end Instance

end RegionSync
