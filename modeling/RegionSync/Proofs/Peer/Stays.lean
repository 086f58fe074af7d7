import RegionSync.Proofs.Peer.Pair
import RegionSync.Proofs.Peer.Polling

/-!
What a peer reports of one player, in order. A player is reported as discovered when it comes into
the table, then at every position accepted, and as dropped if missed polls take it out. An accepted
position outside the tracked leaves takes it out as well, and so does the end of tracking, and no
drop is reported then; whatever has taken it out, the next report of it is that it was discovered.
-/

namespace RegionSync

/-- What is reported of a player while it is in the table: that it was discovered, the positions
accepted, and perhaps that it was dropped. -/
structure Stay where
  positions : List Point
  dropped : Bool

def Stay.locations (stay : Stay) : List Location :=
  .discovered :: stay.positions.map .known ++ if stay.dropped then [.dropped] else []

namespace Peer

/-- What a peer can be made to do: operations that change its state, answers that it signs, and
render tags that it passes on. -/
inductive Activity
  | operation (operation : Operation)
  | answerDiscovery (name : Name) (timestamp : UInt64)
  | signPosition (sequence : UInt32) (payload : Payload) (timestamp : UInt64)
  | signTag (name : Name) (timestamp : UInt64)
  | hearTag (name : EntityName) (response : Response)

/-- The state after an activity and the reports made. -/
def perform (σ : Scheme) (peer : Peer) : Activity → Peer × List Event
  | .operation operation => peer.step σ operation
  | .answerDiscovery name timestamp => (peer, (peer.answerDiscovery σ name timestamp).2)
  | .signPosition sequence payload timestamp =>
    (peer, (peer.signPosition σ sequence payload timestamp).2)
  | .signTag name timestamp => (peer, (peer.signTag σ name timestamp).2)
  | .hearTag name response => (peer, hearTag σ name response)

/-- The state after activities in this order and all reports made. -/
def performAll (σ : Scheme) (peer : Peer) (activities : List Activity) : Peer × List Event :=
  activities.foldl
    (fun reached activity =>
      let next := reached.1.perform σ activity
      (next.1, reached.2 ++ next.2))
    (peer, [])

/-- What an activity reports of where a player is. -/
def told (σ : Scheme) (peer : Peer) (e : EntityName) (activity : Activity) : List Location :=
  Event.locations e (peer.perform σ activity).2

/-- The answer is about a player of the table, it can be trusted and read, and it has a position in
the world under a newer number. -/
structure Accepts (σ : Scheme) (peer : Peer) (e : EntityName) (response : Response)
    (r : RemotePlayer) (s : UInt32) (p : Point) (leaf : RegionPath) : Prop where
  known : peer.player? e = some r
  trusted : σ.check response = .ok ()
  read : parseAnswer e response = .ok (s, .position p)
  newer : peer.window.isNewer r.sequence s = .ok true
  inWorld : peer.geometry.leaf? p = some leaf

/-- When an activity reports which location of a player, where `told` is what it reports. -/
structure Tells (σ : Scheme) (peer : Peer) (e : EntityName) (activity : Activity)
    (told : List Location) : Prop where
  once : told.length ≤ 1
  /-- Discovered is what comes into the table. -/
  discovered : .discovered ∈ told ↔
    peer.player? e = none ∧ ((peer.perform σ activity).1.player? e).isSome = true
  known : ∀ p, .known p ∈ told ↔ ∃ response r s leaf, activity = .operation (.hear e response) ∧
    peer.Accepts σ e response r s p leaf
  /-- A position that is accepted is noted, or takes the player out of the tracked leaves and of the
  table. -/
  accepted : ∀ response r s p leaf, activity = .operation (.hear e response) →
    peer.Accepts σ e response r s p leaf →
      (peer.perform σ activity).1.player? e =
        if peer.isTracked leaf then
          some { r with
            polled := false
            location := .known p
            sequence := some s
            history := r.history.record s p
            timeouts := 0
            region := some leaf }
        else none
  /-- Dropped is what a missed poll takes out of the table. -/
  dropped : .dropped ∈ told ↔ activity = .operation (.miss e) ∧
    (peer.player? e).isSome = true ∧ (peer.perform σ activity).1.player? e = none
  absent : peer.player? e = none → ∀ location ∈ told, location = .discovered

variable {σ : Scheme} {peer after : Peer} {e name : EntityName} {activity : Activity}
  {response : Response} {r : RemotePlayer} {s : UInt32} {p : Point} {leaf : RegionPath}

theorem performAll_concat (peer : Peer) (activities : List Activity) (activity : Activity) :
    peer.performAll σ (activities ++ [activity]) =
      (((peer.performAll σ activities).1.perform σ activity).1,
        (peer.performAll σ activities).2 ++ ((peer.performAll σ activities).1.perform σ activity).2) := by
  rw [performAll, List.foldl_append]
  rfl

theorem performAll_cons (peer : Peer) (activity : Activity) (activities : List Activity) :
    peer.performAll σ (activity :: activities) =
      (((peer.perform σ activity).1.performAll σ activities).1,
        (peer.perform σ activity).2 ++ ((peer.perform σ activity).1.performAll σ activities).2) := by
  induction activities using List.reverseRecOn with
  | nil => exact Prod.ext rfl (List.append_nil _).symm
  | append_singleton activities last ih =>
      rw [← List.cons_append, performAll_concat, ih, performAll_concat, List.append_assoc]

/-- What one activity can report of a player, with what it does to the player's entry. -/
inductive Notice (σ : Scheme) (peer : Peer) (e : EntityName) (activity : Activity) :
    List Location → Prop
  | silent
      (hunknown : peer.player? e = none → (peer.perform σ activity).1.player? e = none)
      (hhear : ∀ response r s p leaf, activity = .operation (.hear e response) →
        ¬ peer.Accepts σ e response r s p leaf)
      (hmiss : activity = .operation (.miss e) → (peer.player? e).isSome = true →
        ((peer.perform σ activity).1.player? e).isSome = true) :
      Notice σ peer e activity []
  | discovered (response : Response) (hactivity : activity = .operation (.learn response))
      (hunknown : peer.player? e = none)
      (hknown : ((peer.perform σ activity).1.player? e).isSome = true) :
      Notice σ peer e activity [.discovered]
  | known (response : Response) (r : RemotePlayer) (s : UInt32) (p : Point) (leaf : RegionPath)
      (hactivity : activity = .operation (.hear e response))
      (haccepts : peer.Accepts σ e response r s p leaf) :
      Notice σ peer e activity [.known p]
  | dropped (hactivity : activity = .operation (.miss e))
      (hknown : (peer.player? e).isSome = true)
      (hgone : (peer.perform σ activity).1.player? e = none) :
      Notice σ peer e activity [.dropped]

/-! Activities that report no location. -/

/-- Who is not in the table does not come into it by a change of entries. -/
theorem Descends.player?_eq_none (h : Descends peer after) (hunknown : peer.player? e = none) :
    after.player? e = none := by
  rw [player?_eq_none_iff] at hunknown ⊢
  intro r hr
  obtain ⟨q, hq, hchange⟩ := h r hr
  rw [hchange.name_eq]
  exact hunknown q hq

theorem events_publish (peer : Peer) : peer.publish.events = [] := by
  unfold publish
  split
  · rfl
  · dsimp only
    split
    · rfl
    · split <;> rfl

theorem locations_signed (peer : Peer) (name : Name) (content : Bytes) (freshness : Nat)
    (timestamp : UInt64) :
    Event.locations e (peer.signed σ name content freshness timestamp).2 = [] := by
  unfold signed
  split <;> rfl

theorem locations_answerDiscovery (peer : Peer) (name : Name) (timestamp : UInt64) :
    Event.locations e (peer.answerDiscovery σ name timestamp).2 = [] :=
  List.getLast?_eq_none_iff.1 (Pair.lastLocation_answerDiscovery peer name timestamp)

theorem locations_hearTag (name : EntityName) (response : Response) :
    Event.locations e (hearTag σ name response) = [] := by
  unfold hearTag distrust
  cases σ.check response with
  | error => rfl
  | ok =>
      dsimp only
      split <;> rfl

/-! Discovery. -/

/-- Of the players taken up from a list, each is reported once, as it was not in the table. -/
theorem locations_takeUpAll (peer : Peer) (list : List (RegionPath × EntityName)) :
    Event.locations e ((peer.takeUpAll list).2.flatMap fun news =>
        [.log .info s!"discovered {news.2} at {news.1}", .located news.2 .discovered]) =
      if peer.player? e = none ∧ ((peer.takeUpAll list).1.player? e).isSome = true then
        [.discovered]
      else [] := by
  induction list generalizing peer with
  | nil =>
      rw [takeUpAll, if_neg]
      · rfl
      · rintro ⟨habsent, hpresent⟩
        rw [habsent] at hpresent
        cases hpresent
  | cons news rest ih =>
      rw [takeUpAll]
      dsimp only
      rw [List.flatMap_append, Event.locations_append, ih]
      rcases takeUp_cases peer news.1 news.2 with hsame | ⟨hunknown, octree, -, htaken⟩
      · rw [show peer.takeUp news = _ from hsame]
        rfl
      · rw [show peer.takeUp news = _ from htaken]
        dsimp only
        rw [List.flatMap_singleton, Event.locations_log, Event.locations_located]
        by_cases hnew : news.2 = e
        · -- From here on the player is in the table, and nothing more is reported of it.
          subst hnew
          have hpresent : (({ peer with
              octree
              players := peer.players ++
                [RemotePlayer.discovered news.2 news.1 peer.config.windowSize] } : Peer).player?
              news.2).isSome = true := by
            simp [player?, List.find?_append, RemotePlayer.discovered]
          rw [if_pos rfl, if_neg, if_pos ⟨hunknown, (isSome_player?_takeUpAll ..).2 (Or.inl hpresent)⟩]
          · rfl
          · rintro ⟨habsent, -⟩
            rw [habsent] at hpresent
            cases hpresent
        · rw [if_neg hnew, player?_append_discovered peer octree news.1 hnew]
          rfl

theorem told_learn (peer : Peer) (response : Response) :
    peer.told σ e (.operation (.learn response)) =
      if peer.player? e = none ∧ ((peer.learn σ response).peer.player? e).isSome = true then
        [.discovered]
      else [] := by
  have hsame : ∀ events : List Event, Event.locations e events = [] →
      Event.locations e events =
        if peer.player? e = none ∧ (peer.player? e).isSome = true then [.discovered] else [] := by
    intro events hsilent
    rw [hsilent, if_neg]
    rintro ⟨habsent, hpresent⟩
    rw [habsent] at hpresent
    cases hpresent
  change Event.locations e (peer.learn σ response).events = _
  unfold learn distrust
  cases σ.check response with
  | error => exact hsame _ rfl
  | ok =>
      dsimp only
      split
      · exact hsame _ rfl
      · exact locations_takeUpAll peer _

theorem notice_learn (peer : Peer) (response : Response) :
    Notice σ peer e (.operation (.learn response))
      (peer.told σ e (.operation (.learn response))) := by
  rw [told_learn]
  split
  · next hnew => exact .discovered response rfl hnew.1 hnew.2
  · next hnot =>
      refine .silent (fun hunknown => ?_) (fun _ _ _ _ _ hactivity => ?_) fun hactivity => ?_
      · rw [← Option.not_isSome_iff_eq_none]
        exact fun hknown => hnot ⟨hunknown, hknown⟩
      · cases hactivity
      · cases hactivity

/-! Position answers. -/

theorem locations_accept (peer : Peer) (r : RemotePlayer) (s : UInt32) (p : Point)
    (leaf : RegionPath) : Event.locations e (peer.accept r s p leaf).2 =
      if r.name = e then [.known p] else [] := by
  rw [← Event.locations_located]
  unfold accept
  dsimp only
  split
  · rfl
  · split <;> rfl

theorem locations_readAnswer (name : EntityName) (response : Response) :
    Event.locations e (readAnswer σ name response).2 = [] := by
  unfold readAnswer distrust
  cases σ.check response with
  | error => rfl
  | ok =>
      dsimp only
      split <;> rfl

theorem readAnswer_eq_some {answer : UInt32 × Payload}
    (h : (readAnswer σ name response).1 = some answer) :
    σ.check response = .ok () ∧ parseAnswer name response = .ok answer := by
  unfold readAnswer distrust at h
  cases hcheck : σ.check response with
  | error => simp [hcheck] at h
  | ok =>
      rw [hcheck] at h
      dsimp only at h
      split at h
      · next hparse =>
          cases h
          exact ⟨rfl, hparse⟩
      · cases h

namespace Accepts

theorem readAnswer (h : peer.Accepts σ e response r s p leaf) :
    readAnswer σ e response = (some (s, .position p), []) := by
  rw [Peer.readAnswer, distrust, h.trusted]
  dsimp only
  rw [h.read]

/-- What an accepted position does to the peer. -/
theorem hear (h : peer.Accepts σ e response r s p leaf) :
    peer.perform σ (.operation (.hear e response)) =
      (peer.setPlayer r.heard).accept r.heard s p leaf := by
  rw [perform, step, hear_position_eq h.known h.readAnswer h.newer h.inWorld]

end Accepts

/-- An accepted position is reported, of its player and of nobody else. -/
theorem Accepts.told (h : peer.Accepts σ name response r s p leaf) (e : EntityName) :
    peer.told σ e (.operation (.hear name response)) = if name = e then [.known p] else [] := by
  rw [Peer.told, h.hear, locations_accept, RemotePlayer.heard]
  dsimp only
  rw [name_of_player? h.known]

/-- An answer that is not accepted reports no location. -/
theorem told_hear (h : ¬ ∃ r s p leaf, peer.Accepts σ name response r s p leaf) (e : EntityName) :
    peer.told σ e (.operation (.hear name response)) = [] := by
  change Event.locations e (peer.hear σ name response).events = []
  unfold hear
  dsimp only
  split
  · exact locations_readAnswer ..
  · next r hfound =>
      split
      · exact locations_readAnswer ..
      · next s payload hread =>
          obtain ⟨hcheck, hparse⟩ := readAnswer_eq_some hread
          cases payload with
          | reset goal reason =>
              unfold apply
              dsimp only
              split <;> rfl
          | position p =>
              unfold apply
              dsimp only
              split
              · rfl
              · rfl
              · next hnewer =>
                  split
                  · rfl
                  · next leaf hleaf =>
                      exact absurd ⟨r, s, p, leaf, hfound, hcheck, hparse, hnewer, hleaf⟩ h

/-- An accepted position is noted in the entry of its player, or evicts it. -/
theorem Accepts.player? (hpeer : peer.Consistent) (h : peer.Accepts σ e response r s p leaf) :
    (peer.perform σ (.operation (.hear e response))).1.player? e =
      if peer.isTracked leaf then
        some { r with
          polled := false
          location := .known p
          sequence := some s
          history := r.history.record s p
          timeouts := 0
          region := some leaf }
      else none := by
  by_cases htracked : peer.isTracked leaf = true
  · rw [if_pos htracked]
    exact (hear_position hpeer h.known h.readAnswer h.newer h.inWorld htracked).2.2
  · obtain ⟨old, hold, hhoused, -⟩ := hpeer.housed r (mem_of_player? h.known)
    have hne : old ≠ leaf := fun heq => htracked (heq ▸ hhoused)
    obtain rfl := name_of_player? h.known
    rw [if_neg htracked, h.hear, accept_evicted hold hne htracked]
    exact player?_eq_none_iff.2 (by simp [forget])

theorem notice_hear (peer : Peer) (name : EntityName) (response : Response) :
    Notice σ peer e (.operation (.hear name response))
      (peer.told σ e (.operation (.hear name response))) := by
  have hunknown := (descends_hear (σ := σ) peer name response).player?_eq_none (e := e)
  by_cases haccepts : ∃ r s p leaf, peer.Accepts σ name response r s p leaf
  · obtain ⟨r, s, p, leaf, haccepts⟩ := haccepts
    rw [haccepts.told]
    split
    · next hname =>
        subst hname
        exact .known response r s p leaf rfl haccepts
    · next hname =>
        refine .silent hunknown (fun _ _ _ _ _ hactivity => ?_) fun hactivity => ?_
        · cases hactivity
          exact absurd rfl hname
        · cases hactivity
  · rw [told_hear haccepts]
    refine .silent hunknown (fun _ r s p leaf hactivity haccepted => ?_) fun hactivity => ?_
    · cases hactivity
      exact haccepts ⟨r, s, p, leaf, haccepted⟩
    · cases hactivity

/-! Missed polls. -/

theorem notice_miss (peer : Peer) (name : EntityName) :
    Notice σ peer e (.operation (.miss name)) (peer.told σ e (.operation (.miss name))) := by
  have hunknown := (descends_miss peer name).player?_eq_none (e := e)
  rw [told]
  rcases miss_cases peer name with ⟨hknown, hgone, htold⟩ | ⟨hsame, htold⟩
  · rw [show Event.locations e (peer.perform σ (.operation (.miss name))).2 = _ from htold e]
    split
    · next hname =>
        subst hname
        exact .dropped rfl hknown hgone
    · next hname =>
        refine .silent hunknown (fun _ _ _ _ _ hactivity => ?_) fun hactivity => ?_
        · cases hactivity
        · cases hactivity
          exact absurd rfl hname
  · rw [show Event.locations e (peer.perform σ (.operation (.miss name))).2 = _ from htold e]
    refine .silent hunknown (fun _ _ _ _ _ hactivity => ?_) fun hactivity hknown => ?_
    · cases hactivity
    · cases hactivity
      exact hsame.trans hknown

/-! One activity. -/

/-- Operations other than learning, hearing and missing report nothing and bring nobody. -/
theorem step_silent (peer : Peer) {operation : Operation}
    (hlearn : ∀ response, operation ≠ .learn response)
    (hhear : ∀ name response, operation ≠ .hear name response)
    (hmiss : ∀ name, operation ≠ .miss name) :
    (peer.step σ operation).2 = [] ∧ Descends peer (peer.step σ operation).1 := by
  have hkept : ∀ {after : Peer}, after.players = peer.players → Descends peer after :=
    fun heq => .of_subset fun _ hr => heq ▸ hr
  cases operation with
  | moveTo position =>
      simp only [step]
      split
      · next hok => exact ⟨rfl, hkept (moveTo_frame hok).2⟩
      · exact ⟨rfl, hkept rfl⟩
  | publish => exact ⟨events_publish peer, hkept (publish_frame peer).2⟩
  | learn response => exact absurd rfl (hlearn response)
  | polls => exact ⟨rfl, descends_polls peer⟩
  | hear name response => exact absurd rfl (hhear name response)
  | miss name => exact absurd rfl (hmiss name)
  | tagRequests =>
      refine ⟨rfl, fun r hr => ?_⟩
      obtain ⟨q, hq, rfl⟩ := List.mem_map.1 hr
      exact ⟨q, hq, .tagged⟩
  | track leaf =>
      simp only [step]
      split
      · next hok => exact ⟨rfl, hkept (track_frame hok).2⟩
      · exact ⟨rfl, hkept rfl⟩
  | untrack leaf => exact ⟨rfl, descends_untrack peer leaf⟩
  | subscribe region id => exact ⟨rfl, hkept rfl⟩
  | releaseAll => exact ⟨rfl, hkept rfl⟩

theorem notice (peer : Peer) (e : EntityName) (activity : Activity) :
    Notice σ peer e activity (peer.told σ e activity) := by
  have hsilent : peer.told σ e activity = [] →
      Descends peer (peer.perform σ activity).1 →
      (∀ response, activity ≠ .operation (.hear e response)) →
      activity ≠ .operation (.miss e) → Notice σ peer e activity (peer.told σ e activity) := by
    intro htold hdescends hhear hmiss
    rw [htold]
    exact .silent hdescends.player?_eq_none
      (fun response _ _ _ _ hactivity => absurd hactivity (hhear response))
      fun hactivity => absurd hactivity hmiss
  have hsame : Descends peer peer := .of_subset fun _ => id
  cases activity with
  | operation operation =>
      by_cases hlearn : ∃ response, operation = .learn response
      · obtain ⟨response, rfl⟩ := hlearn
        exact notice_learn peer response
      by_cases hhear : ∃ name response, operation = .hear name response
      · obtain ⟨name, response, rfl⟩ := hhear
        exact notice_hear peer name response
      by_cases hmiss : ∃ name, operation = .miss name
      · obtain ⟨name, rfl⟩ := hmiss
        exact notice_miss peer name
      obtain ⟨hevents, hdescends⟩ := step_silent (σ := σ) peer
        (fun response heq => hlearn ⟨response, heq⟩)
        (fun name response heq => hhear ⟨name, response, heq⟩) fun name heq => hmiss ⟨name, heq⟩
      refine hsilent ?_ hdescends (fun response heq => ?_) fun heq => ?_
      · exact congrArg (Event.locations e) hevents
      · cases heq
        exact hhear ⟨e, response, rfl⟩
      · cases heq
        exact hmiss ⟨e, rfl⟩
  | answerDiscovery name timestamp =>
      exact hsilent (locations_answerDiscovery ..) hsame nofun nofun
  | signPosition sequence payload timestamp => exact hsilent (locations_signed ..) hsame nofun nofun
  | signTag name timestamp => exact hsilent (locations_signed ..) hsame nofun nofun
  | hearTag name response => exact hsilent (locations_hearTag ..) hsame nofun nofun

theorem Notice.tells (hpeer : peer.Consistent) {told : List Location}
    (h : Notice σ peer e activity told) : Tells σ peer e activity told := by
  cases h with
  | silent hunknown hhear hmiss =>
      refine ⟨Nat.zero_le 1, iff_of_false List.not_mem_nil ?_, fun p => iff_of_false List.not_mem_nil ?_,
        ?_, iff_of_false List.not_mem_nil ?_, by simp⟩
      · rintro ⟨habsent, hpresent⟩
        rw [hunknown habsent] at hpresent
        cases hpresent
      · rintro ⟨response, r, s, leaf, hactivity, haccepts⟩
        exact hhear response r s p leaf hactivity haccepts
      · intro response r s p leaf hactivity haccepts
        exact absurd haccepts (hhear response r s p leaf hactivity)
      · rintro ⟨hactivity, hpresent, hgone⟩
        have hkept := hmiss hactivity hpresent
        rw [hgone] at hkept
        cases hkept
  | discovered response hactivity hunknown hknown =>
      subst hactivity
      refine ⟨Nat.le_refl 1, by simp [hunknown, hknown], by simp, ?_, by simp, by simp⟩
      intro _ _ _ _ _ hactivity
      cases hactivity
  | known response r s p leaf hactivity haccepts =>
      subst hactivity
      have hknown := haccepts.known
      refine ⟨Nat.le_refl 1, by simp [hknown], fun p' => ⟨?_, ?_⟩, ?_, by simp, by simp [hknown]⟩
      · intro hp
        cases List.mem_singleton.1 hp
        exact ⟨response, r, s, leaf, rfl, haccepts⟩
      · rintro ⟨response', r', s', leaf', hactivity, haccepts'⟩
        cases hactivity
        cases haccepts.read.symm.trans haccepts'.read
        exact List.mem_singleton_self _
      · intro response' r' s' p' leaf' hactivity haccepts'
        cases hactivity
        exact haccepts'.player? hpeer
  | dropped hactivity hknown hgone =>
      subst hactivity
      have hpresent : peer.player? e ≠ none := Option.isSome_iff_ne_none.1 hknown
      refine ⟨Nat.le_refl 1, by simp [hpresent], by simp, ?_, by simp [hknown, hgone],
        fun habsent => absurd habsent hpresent⟩
      intro _ _ _ _ _ hactivity
      cases hactivity

/-! All activities. -/

/-- The locations reported of a player are those of some stays in the table; while the player is in
the table, the last stay goes on. -/
def Recorded (peer : Peer) (e : EntityName) (locations : List Location) : Prop :=
  ∃ stays : List Stay, locations = stays.flatMap Stay.locations ∧
    ((peer.player? e).isSome = true → ∃ earlier positions, stays = earlier ++ [⟨positions, false⟩])

theorem Notice.recorded {told locations : List Location} (h : Notice σ peer e activity told)
    (hrecorded : peer.Recorded e locations) :
    (peer.perform σ activity).1.Recorded e (locations ++ told) := by
  obtain ⟨stays, rfl, hopen⟩ := hrecorded
  cases h with
  | silent hunknown _ _ =>
      refine ⟨stays, List.append_nil _, fun hafter => hopen ?_⟩
      by_contra hbefore
      rw [hunknown (Option.not_isSome_iff_eq_none.1 hbefore)] at hafter
      cases hafter
  | discovered response _ _ _ =>
      refine ⟨stays ++ [⟨[], false⟩], ?_, fun _ => ⟨stays, [], rfl⟩⟩
      rw [List.flatMap_append]
      rfl
  | known response r s p leaf _ haccepts =>
      obtain ⟨earlier, positions, rfl⟩ := hopen (by rw [haccepts.known]; rfl)
      refine ⟨earlier ++ [⟨positions ++ [p], false⟩], ?_, fun _ => ⟨earlier, _, rfl⟩⟩
      simp [Stay.locations]
  | dropped _ hknown hgone =>
      obtain ⟨earlier, positions, rfl⟩ := hopen hknown
      refine ⟨earlier ++ [⟨positions, true⟩], by simp [Stay.locations], fun hafter => ?_⟩
      rw [hgone] at hafter
      cases hafter

theorem Recorded.performAll {start : Peer} (h : start.player? e = none)
    (activities : List Activity) : (start.performAll σ activities).1.Recorded e
      (Event.locations e (start.performAll σ activities).2) := by
  induction activities using List.reverseRecOn with
  | nil =>
      refine ⟨[], rfl, fun hknown => ?_⟩
      rw [show (start.performAll σ []).1 = start from rfl, h] at hknown
      cases hknown
  | append_singleton activities activity ih =>
      rw [performAll_concat, Event.locations_append]
      exact (notice _ e activity).recorded ih

theorem Consistent.performAll (h : peer.Consistent) (activities : List Activity) :
    (peer.performAll σ activities).1.Consistent := by
  induction activities using List.reverseRecOn with
  | nil => exact h
  | append_singleton activities activity ih =>
      rw [performAll_concat]
      cases activity with
      | operation operation => exact ih.step operation
      | _ => exact ih

/-- What a peer reports of a player, from a new peer on and after anything the peer was made to do:
stay after stay, where a stay begins when the player comes into the table, every position accepted is
reported, and a drop, only when a missed poll takes the player out, ends its stay. -/
theorem stays_of_run {config : Config} {id : String} {position : Point} {secret : Bytes} {start : Peer}
    (hmake : make config id position secret = .ok (.ok start)) (activities : List Activity)
    (e : EntityName) : let reached := start.performAll σ activities
    (∃ stays : List Stay, Event.locations e reached.2 = stays.flatMap Stay.locations ∧
      ((reached.1.player? e).isSome = true →
        ∃ earlier positions, stays = earlier ++ [⟨positions, false⟩])) ∧
      ∀ activity, Tells σ reached.1 e activity (reached.1.told σ e activity) := by
  intro reached
  have hnew : start.player? e = none := by
    obtain ⟨-, -, -, -, -, -, hstart⟩ := make_eq_ok hmake
    rw [hstart]
    rfl
  refine ⟨Recorded.performAll hnew activities, fun activity => ?_⟩
  exact (notice reached.1 e activity).tells ((Consistent.make hmake).performAll activities)

/-- Three stays of a player: the first ends with a drop, the second with a position outside the
tracked leaf, the third goes on. -/
theorem stays_of_run_bob : ∃ config id position secret start activities, ∃ place : Nat → Point,
    make config id position secret = .ok (.ok start) ∧
      let reached := start.performAll .sealing activities
      Event.locations ⟨"/hub", "bob"⟩ reached.2 = [.discovered, .known (place 0), .dropped,
        .discovered, .known (place 0), .known (place 2), .discovered] ∧
      (∃ stays : List Stay, stays.flatMap Stay.locations =
        [.discovered, .known (place 0), .dropped, .discovered, .known (place 0), .known (place 2),
          .discovered] ∧ ∃ earlier positions, stays = earlier ++ [⟨positions, false⟩]) ∧
      ∀ activity, Tells .sealing reached.1 ⟨"/hub", "bob"⟩ activity
        (reached.1.told .sealing ⟨"/hub", "bob"⟩ activity) := by
  let config : Config := { hub := "/hub", depth := 2, worldBits := 2, dropThreshold := 0 }
  let bob : EntityName := ⟨"/hub", "bob"⟩
  let place (n : Nat) : Point := ⟨.ofNat n, .zero, .zero⟩
  let sealed (name : Name) (content : String) : Response :=
    ⟨name, Text.bytesOf content, 0, 0, Response.signable name (Text.bytesOf content) 0 0, []⟩
  let learn : Activity := .operation (.learn (sealed .root "/hub:bob 0/0\n"))
  let hear (s : UInt32) (content : String) : Activity :=
    .operation (.hear bob (sealed (bob.numbered s) content))
  let activities : List Activity := [.operation (.track ⟨[0, 0]⟩), learn, learn, hear 3 "0,0,0",
    hear 3 "0,0,0", .operation (.miss bob), .operation (.miss bob), hear 4 "0,0,0", learn,
    hear 3 "0,0,0", hear 4 "2,0,0", hear 5 "0,0,0", learn]
  have hmade : (made? config "alice" ⟨.zero, .zero, .zero⟩ []).any (fun start => decide
      (Event.locations bob (start.performAll .sealing activities).2 = [.discovered,
          .known (place 0), .dropped, .discovered, .known (place 0), .known (place 2), .discovered] ∧
        ((start.performAll .sealing activities).1.player? bob).isSome = true)) = true := by
    decide +kernel
  obtain ⟨start, hstart, hreached⟩ := exists_make hmade
  obtain ⟨hlocations, hknown⟩ := of_decide_eq_true hreached
  obtain ⟨⟨stays, hstays, hopen⟩, htells⟩ :=
    stays_of_run (σ := .sealing) hstart activities bob
  exact ⟨config, _, _, _, start, activities, place, hstart, hlocations,
    ⟨stays, hstays.symm.trans hlocations, hopen hknown⟩, htells⟩

end Peer

end RegionSync
