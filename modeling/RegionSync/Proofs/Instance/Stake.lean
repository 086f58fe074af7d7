import RegionSync.Proofs.Instance.Lifespan
import RegionSync.Proofs.Instance.Turn

/-!
What a turn means for the registrations. A registration that stands is recorded by the instance, or
a call has it: one that has heard of it and did not run on yet, or a shutdown that has taken it from
the records and did not give it back yet.
-/

namespace RegionSync

/-! The records. -/

namespace Instance

/-- The registrations of one kind that an instance has on record. -/
def kept (i : Instance) : Handler → List RegistrationId
  | .player => i.registration.toList
  | .discovery => i.peer.subscriptions.map Prod.snd

def recorded (i : Instance) : List RegistrationId :=
  i.kept .player ++ i.kept .discovery

end Instance

namespace Peer

variable {σ : Scheme} {peer middle after : Peer} {leaf : RegionPath}

/-- Who the peer is and what its leaves are is as before, and its records of players still agree. -/
structure Stays (peer after : Peer) : Prop where
  identity : after.identity = peer.identity
  isLeaf : ∀ p, after.octree.isLeaf p = peer.octree.isLeaf p
  consistent : after.Consistent

namespace Stays

theorem refl (h : peer.Consistent) : Stays peer peer :=
  ⟨rfl, fun _ => rfl, h⟩

theorem trans (h : Stays peer middle) (h' : Stays middle after) : Stays peer after := by
  refine ⟨h'.identity.trans h.identity, ?_, h'.consistent⟩
  intro p
  rw [h'.isLeaf, h.isLeaf]

theorem step (h : peer.Consistent) (operation : Operation) :
    Stays peer (peer.step σ operation).1 :=
  ⟨identity_step peer operation, isLeaf_step h operation, h.step operation⟩

theorem track (h : peer.Consistent) (htrack : peer.track leaf = .ok after) : Stays peer after := by
  have hstep : (peer.step .sealing (.track leaf)).1 = after := by
    rw [Peer.step, htrack]
  rw [← hstep]
  exact step h _

end Stays

theorem subscriptions_track (h : peer.track leaf = .ok after) :
    after.subscriptions = peer.subscriptions := by
  obtain ⟨octree, tracked, -, rfl⟩ := exists_of_track h
  rfl

end Peer

/-! What calls have. -/

/-- What a task has to do with registrations. -/
structure Stake where
  /-- Registrations that stand and that only the task knows. -/
  owed : List RegistrationId
  /-- What it registers. -/
  fills : Option Handler
  /-- The records that it has emptied. -/
  emptied : List Handler

namespace Stake

def nothing : Stake := ⟨[], none, []⟩

/-- The new registration that a call has heard of. -/
def learned : Option Signal → List RegistrationId
  | some (.registered (.ok id)) => [id]
  | _ => []

/-- A shutdown that has ended has emptied all records. -/
def ended : Stake := ⟨[], none, [.discovery, .player]⟩

/-- The task holds the lock. -/
def holds (stake : Stake) : Bool :=
  stake.fills = some .discovery

end Stake

namespace Call

/-- The stake of a call that waits, or has heard something and did not run on yet. -/
def stake (heard : Option Signal) : Call → Stake
  | announce => ⟨Stake.learned heard, some .player, []⟩
  | subscribe .. => ⟨Stake.learned heard, some .discovery, []⟩
  | clear id rest => ⟨if heard.isSome then rest else id :: rest, none, [.discovery]⟩
  | retire id => ⟨if heard.isSome then [] else [id], none, [.discovery, .player]⟩
  | _ => .nothing

def Progress.stake : Progress → Stake
  | waits call => call.stake none
  | done _ => .ended

end Call

/-- The stake of what a task has heard. -/
def Input.signal? : Input → Option Signal
  | call signal => some signal
  | _ => none

def Strand.stake : Strand → Stake
  | waits task => (task.call?.map (Call.stake none)).getD .nothing
  | heard task input => (task.call?.map (Call.stake input.signal?)).getD .nothing
  | done _ => .ended

/-- What a turn of a party may change. -/
structure Stake.Changes (party : Party) (i : Instance) (live : List Registration) (before : Stake)
    (i' : Instance) (live' : List Registration) (after : Stake) : Prop where
  stays : i.peer.Stays i'.peer
  started : i'.started = i.started
  stopped : i'.stopped = i.stopped
  /-- Whatever else stands, what the party has and the records account for the rest. -/
  accounts : ∀ rest, (live.map (·.id)).Nodup →
    (live.map (·.id)).Perm (i.recorded ++ before.owed ++ rest) →
      (live'.map (·.id)).Nodup ∧ (live'.map (·.id)).Perm (i'.recorded ++ after.owed ++ rest)
  /-- The lock changes as the party takes it or gives it back. -/
  lock : ∀ others, before.holds.toNat + others = i.locked.toNat →
    after.holds.toNat + others = i'.locked.toNat
  /-- Who holds the lock may subscribe. -/
  regions : before.holds = false → ∀ region, region ∉ i.peer.subscriptions.map (·.1) →
    region ∉ i'.peer.subscriptions.map (·.1)
  kept : ∀ h, i'.kept h = i.kept h ∨ before.fills = some h ∨
    party = .shutdown ∧ h ∉ before.emptied ∧ i'.kept h = []
  filled : ∀ h, before.fills = some h → after.fills = some h ∨ i'.kept h ≠ []
  emptied : party = .shutdown → ∀ h, (h ∈ before.emptied → h ∈ after.emptied) ∧
    (h ∈ after.emptied → h ∈ before.emptied ∨ i'.kept h = [])
  quiet : party = .shutdown → after.emptied ≠ [] → before.emptied ≠ [] ∨ i.tasks = 0

namespace Party

/-- Why a party tracks leaves. -/
def purpose? : Party → Option Purpose
  | start => some .start
  | shutdown => none
  | own _ => some .publication

/-- A call as a task of the party. -/
def task : Party → Call → Task
  | own _, c => .publish c
  | _, c => .call c

/-- A call of the party, after it ran. -/
def step : Party → Call.Step → Task.Step
  | own _, step => Task.publishStep step
  | _, step => Task.callStep step

theorem call?_task (party : Party) (c : Call) : (party.task c).call? = some c := by
  cases party <;> rfl

theorem resume_task (σ : Scheme) (i : Instance) (now : Nat) (party : Party) (c : Call)
    (signal : Signal) :
    (party.task c).resume σ i now (.call signal) = party.step (c.resume i signal) := by
  cases party <;> rfl

end Party

/-- The calls that a party makes, as far as they can go on. -/
inductive Call.Fits (i : Instance) : Party → Call → Prop
  | announce (h : i.registration = none) : Fits i .start .announce
  | track {party : Party} {leaf : RegionPath} {purpose : Purpose}
      (hpurpose : party.purpose? = some purpose) (hleaf : i.peer.octree.isLeaf leaf = true) :
      Fits i party (.track leaf purpose)
  | subscribe {party : Party} {leaf : RegionPath} {purpose : Purpose}
      (hpurpose : party.purpose? = some purpose) (hleaf : i.peer.octree.isLeaf leaf = true)
      (hregion : i.peer.subscriptionFor leaf ∉ i.peer.subscriptions.map (·.1)) :
      Fits i party (.subscribe leaf purpose)
  | stop : Fits i .shutdown .stop
  | clear (id : RegistrationId) (rest : List RegistrationId) : Fits i .shutdown (.clear id rest)
  | retire (id : RegistrationId) : Fits i .shutdown (.retire id)

/-- What the transport tells a call. -/
inductive Call.Hears : Call → Signal → Prop
  | announce (id : RegistrationId) : Hears .announce (.registered (.ok id))
  | subscribe (leaf : RegionPath) (purpose : Purpose) (id : RegistrationId) :
      Hears (.subscribe leaf purpose) (.registered (.ok id))
  | clear (id : RegistrationId) (rest : List RegistrationId) : Hears (.clear id rest) (.removed (.ok ()))
  | retire (id : RegistrationId) : Hears (.retire id) (.removed (.ok ()))

inductive Call.Progress.Fits (i : Instance) (party : Party) : Call.Progress → Prop
  | waits {c : Call} (h : c.Fits i party) : Fits i party (.waits c)
  | done : Fits i party (.done (.ok ()))

/-- What becomes of a call of a party when it runs on. -/
structure Call.Goes (party : Party) (i : Instance) (live : List Registration) (before : Stake)
    (step : Call.Step) : Prop where
  changes : Stake.Changes party i live before step.after live step.progress.stake
  fits : step.progress.Fits step.after party
  tasks : step.after.tasks = i.tasks + step.loops.length
  loops : i.stopped = true ∨ party ≠ .start → step.loops = []

namespace Stake.Changes

variable {party : Party} {i i' : Instance} {live : List Registration} {before after : Stake}

/-- Nothing comes to the transport or leaves it: what is no longer on record is the party's, and the
other way round. -/
theorem accounts_of_perm (h : (i'.recorded ++ after.owed).Perm (i.recorded ++ before.owed))
    (rest : List RegistrationId) (hids : (live.map (·.id)).Nodup)
    (hlive : (live.map (·.id)).Perm (i.recorded ++ before.owed ++ rest)) :
    (live.map (·.id)).Nodup ∧ (live.map (·.id)).Perm (i'.recorded ++ after.owed ++ rest) :=
  ⟨hids, hlive.trans (h.symm.append_right rest)⟩

/-- The records and the lock stay as they are. -/
theorem still (hstays : i.peer.Stays i'.peer)
    (hsubscriptions : i'.peer.subscriptions = i.peer.subscriptions)
    (hothers : i' = { i with peer := i'.peer, tasks := i'.tasks })
    (howed : after.owed = before.owed) (hholds : after.holds = before.holds)
    (hfills : ∀ h, before.fills = some h → after.fills = some h)
    (hemptied : party = .shutdown → after.emptied = before.emptied) :
    Changes party i live before i' live after := by
  have hkept : ∀ h, i'.kept h = i.kept h := by
    intro h
    rw [hothers]
    cases h with
    | player => rfl
    | discovery =>
        simp only [Instance.kept]
        rw [hsubscriptions]
  have hrecorded : i'.recorded = i.recorded := by
    rw [Instance.recorded, hkept, hkept, Instance.recorded]
  have hlocked : i'.locked = i.locked := by rw [hothers]
  refine ⟨hstays, by rw [hothers], by rw [hothers], ?_, ?_, ?_, fun h => Or.inl (hkept h), ?_, ?_, ?_⟩
  · intro rest hids hlive
    rw [hrecorded, howed]
    exact ⟨hids, hlive⟩
  · intro others hcount
    rw [hholds, hlocked, hcount]
  · intro _ region hregion
    rw [hsubscriptions]
    exact hregion
  · intro h hfill
    exact Or.inl (hfills h hfill)
  · intro hparty h
    rw [hemptied hparty]
    exact ⟨id, Or.inl⟩
  · intro hparty
    rw [hemptied hparty]
    exact Or.inl

end Stake.Changes

namespace Call

variable {party : Party} {i : Instance} {live : List Registration} {leaf : RegionPath}
  {purpose : Purpose} {id : RegistrationId}

/-- A leaf is tracked: the start begins the loops, and the publishing loop goes on. -/
theorem trackEnded_cases (hpurpose : party.purpose? = some purpose) (i : Instance)
    (leaf : RegionPath) : ∃ tasks events loops, trackEnded i leaf purpose (.ok ()) =
      ⟨{ i with tasks }, events, loops, .done (.ok ())⟩ ∧ tasks = i.tasks + loops.length ∧
        (i.stopped = true ∨ party ≠ .start → loops = []) := by
  cases party with
  | start =>
      cases hpurpose
      rw [trackEnded, finishStart, Instance.takeOn]
      by_cases hstopped : i.stopped = true
      · rw [if_pos hstopped]
        exact ⟨i.tasks, _, [], rfl, rfl, fun _ => rfl⟩
      · rw [if_neg hstopped]
        refine ⟨i.tasks + 3, _, _, rfl, rfl, ?_⟩
        rintro (hcontra | hcontra)
        · exact absurd hcontra hstopped
        · exact absurd rfl hcontra
  | shutdown => cases hpurpose
  | own k =>
      cases hpurpose
      exact ⟨i.tasks, [], [], rfl, rfl, fun _ => rfl⟩

theorem markTracked_of_isLeaf (purpose : Purpose) (hleaf : i.peer.octree.isLeaf leaf = true) :
    ∃ after, i.peer.track leaf = .ok after ∧ markTracked i leaf purpose =
      trackEnded { i with peer := after, locked := false } leaf purpose (.ok ()) := by
  obtain ⟨octree, -, htrack⟩ := Peer.exists_track hleaf
  refine ⟨_, htrack, ?_⟩
  rw [markTracked, htrack]

theorem resume_announce (hconsistent : i.peer.Consistent) (id : RegistrationId) :
    announce.resume i (.registered (.ok id)) =
      waitAt { i with registration := some id, peer := i.peer.publish.peer }
        (.track i.peer.publish.peer.self.region .start) := by
  have hpublished := hconsistent.step (σ := .sealing) .publish
  rw [resume]
  exact if_pos hpublished.leaf

/-- A start has its registration, publishes a position and goes on to track the player's leaf. -/
theorem goes_announce (hconsistent : i.peer.Consistent) (h : i.registration = none)
    (id : RegistrationId) :
    Goes .start i live (announce.stake (some (.registered (.ok id))))
      (announce.resume i (.registered (.ok id))) := by
  have hstays : i.peer.Stays i.peer.publish.peer := .step (σ := .sealing) hconsistent .publish
  have hsubscriptions := (Peer.records_publish i.peer).2.1
  have hleaf := hstays.consistent.leaf
  rw [resume_announce hconsistent]
  have hperm : ((some id).toList ++ i.peer.publish.peer.subscriptions.map Prod.snd ++ []).Perm
      (i.registration.toList ++ i.peer.subscriptions.map Prod.snd ++ [id]) := by
    rw [h, hsubscriptions, List.append_nil]
    exact List.perm_append_comm
  refine ⟨⟨hstays, rfl, rfl, ?_, fun _ hcount => hcount, ?_, ?_, ?_, ?_, ?_⟩,
    .waits (.track rfl hleaf), rfl, fun _ => rfl⟩
  · exact Stake.Changes.accounts_of_perm hperm
  · intro _ region hregion
    dsimp only [waitAt]
    rw [hsubscriptions]
    exact hregion
  · intro h
    cases h with
    | player => exact Or.inr (Or.inl rfl)
    | discovery => exact Or.inl (congrArg (List.map Prod.snd) hsubscriptions)
  · intro h hfill
    cases hfill
    exact Or.inr (List.cons_ne_nil id [])
  · intro hparty
    cases hparty
  · intro hparty
    cases hparty

/-- With the lock, a leaf whose subscription stands is tracked at once. -/
theorem goes_track (hconsistent : i.peer.Consistent) (hpurpose : party.purpose? = some purpose)
    (hleaf : i.peer.octree.isLeaf leaf = true) (hfree : i.locked = false) :
    Goes party i live ((track leaf purpose).stake (some .locked))
      ((track leaf purpose).resume i .locked) := by
  have hended : ∀ i' : Instance, i.peer.Stays i'.peer →
      i'.peer.subscriptions = i.peer.subscriptions →
      i' = { i with peer := i'.peer } →
        Goes party i live .nothing (trackEnded i' leaf purpose (.ok ())) := by
    intro i' hstays hsubscriptions hothers
    obtain ⟨tasks, events, loops, hended, htasks, hloops⟩ := trackEnded_cases hpurpose i' leaf
    rw [hended]
    refine ⟨.still hstays hsubscriptions ?_ rfl rfl ?_ ?_, .done, ?_, ?_⟩
    · rw [hothers]
    · intro handler hfill
      cases hfill
    · rintro rfl
      cases hpurpose
    · rw [htasks, hothers]
    · rw [hothers] at hloops
      exact hloops
  rw [resume]
  by_cases htracked : i.peer.isTracked leaf = true
  · rw [if_pos htracked]
    exact hended i (.refl hconsistent) rfl rfl
  rw [if_neg htracked]
  by_cases hsubscribed : i.peer.hasSubscription (i.peer.subscriptionFor leaf) = true
  · rw [if_pos hsubscribed]
    obtain ⟨after, htrack, hmark⟩ := markTracked_of_isLeaf purpose hleaf
    rw [hmark]
    refine hended _ (.track hconsistent htrack) (Peer.subscriptions_track htrack) ?_
    rw [← hfree]
  · rw [if_neg hsubscribed]
    have hregion : i.peer.subscriptionFor leaf ∉ i.peer.subscriptions.map (·.1) :=
      fun hmem => hsubscribed ((Peer.hasSubscription_iff _).2 hmem)
    refine ⟨⟨.refl hconsistent, rfl, rfl, fun _ hids hlive => ⟨hids, hlive⟩, ?_,
      fun _ _ hregion => hregion, fun _ => Or.inl rfl, ?_, ?_, ?_⟩,
      .waits (.subscribe hpurpose hleaf hregion), rfl, fun _ => rfl⟩
    · intro others hcount
      rw [hfree] at hcount
      have hnone : others = 0 := by simpa [Stake.holds, stake, Stake.nothing] using hcount
      rw [hnone]
      rfl
    · intro handler hfill
      cases hfill
    · rintro rfl
      cases hpurpose
    · rintro rfl
      cases hpurpose

/-- The subscription is noted, the leaf tracked, and the lock given back. -/
theorem goes_subscribe (hconsistent : i.peer.Consistent) (hpurpose : party.purpose? = some purpose)
    (hleaf : i.peer.octree.isLeaf leaf = true)
    (hregion : i.peer.subscriptionFor leaf ∉ i.peer.subscriptions.map (·.1))
    (id : RegistrationId) :
    Goes party i live ((subscribe leaf purpose).stake (some (.registered (.ok id))))
      ((subscribe leaf purpose).resume i (.registered (.ok id))) := by
  have hnoted := Peer.subscribe_of_not_mem hregion id
  have hstays : i.peer.Stays (i.peer.subscribe (i.peer.subscriptionFor leaf) id) :=
    .step (σ := .sealing) hconsistent (.subscribe _ _)
  obtain ⟨after, htrack, hmark⟩ := markTracked_of_isLeaf purpose
    (i := { i with peer := i.peer.subscribe (i.peer.subscriptionFor leaf) id })
    ((hstays.isLeaf leaf).trans hleaf)
  have hsubscriptions : after.subscriptions =
      i.peer.subscriptions ++ [(i.peer.subscriptionFor leaf, id)] := by
    rw [Peer.subscriptions_track htrack]
    dsimp only
    rw [hnoted]
  have hkept : after.subscriptions.map Prod.snd = i.peer.subscriptions.map Prod.snd ++ [id] := by
    rw [hsubscriptions, List.map_append, List.map_singleton]
  rw [resume, hmark]
  obtain ⟨tasks, events, loops, hended, htasks, hloops⟩ :=
    trackEnded_cases hpurpose { i with peer := after, locked := false } leaf
  dsimp only at hended ⊢
  rw [hended]
  have hperm : (i.registration.toList ++ after.subscriptions.map Prod.snd ++ []).Perm
      (i.registration.toList ++ i.peer.subscriptions.map Prod.snd ++ [id]) := by
    rw [hkept, List.append_nil, List.append_assoc]
  refine ⟨⟨hstays.trans (.track hstays.consistent htrack), rfl, rfl,
    Stake.Changes.accounts_of_perm hperm, ?_, ?_, ?_, ?_, ?_, ?_⟩, .done, htasks, hloops⟩
  · intro others hcount
    have hnone : others = 0 := by
      have hle : i.locked.toNat ≤ 1 := Bool.toNat_le _
      have hholds : ((subscribe leaf purpose).stake (some (.registered (.ok id)))).holds.toNat = 1 :=
        rfl
      omega
    rw [hnone]
    rfl
  · intro hholds
    cases hholds
  · intro h
    cases h with
    | player => exact Or.inl rfl
    | discovery => exact Or.inr (Or.inl rfl)
  · intro h hfill
    cases hfill
    refine Or.inr ?_
    simp only [Instance.kept]
    rw [hkept]
    exact List.concat_ne_nil _ _
  · rintro rfl
    cases hpurpose
  · rintro rfl
    cases hpurpose

/-- A shutdown takes registrations from the records: all subscriptions, now or before, and then that
of the player, or not yet. -/
theorem changes_of_empties {peer : Peer} {registration : Option RegistrationId} {before : Stake}
    {owed : List RegistrationId} {emptied : List Handler} (hstays : i.peer.Stays peer)
    (hregions : peer.subscriptions ⊆ i.peer.subscriptions) (hfills : before.fills = none)
    (hperm : (({ i with peer, registration } : Instance).recorded ++ owed).Perm
      (i.recorded ++ before.owed))
    (hplayer : .player ∉ before.emptied) (hdiscovery : .discovery ∈ emptied)
    (hsubscriptions : .discovery ∈ before.emptied ∧ peer.subscriptions = i.peer.subscriptions ∨
      .discovery ∉ before.emptied ∧ peer.subscriptions = [] ∧ i.tasks = 0)
    (hregistration : .player ∉ emptied ∧ registration = i.registration ∨ registration = none) :
    Stake.Changes .shutdown i live before { i with peer, registration } live
      ⟨owed, none, emptied⟩ := by
  have hfilled : ∀ h, before.fills ≠ some h := by
    intro h
    rw [hfills]
    nofun
  refine ⟨hstays, rfl, rfl, Stake.Changes.accounts_of_perm hperm, ?_, ?_, ?_,
    fun h hfill => absurd hfill (hfilled h), ?_, ?_⟩
  · intro others hcount
    rw [Stake.holds, hfills] at hcount
    exact hcount
  · intro _ region hregion hmem
    exact hregion (List.map_subset _ hregions hmem)
  · intro h
    cases h with
    | player =>
        rcases hregistration with ⟨-, hsame⟩ | hnone
        · exact Or.inl (congrArg Option.toList hsame)
        · exact Or.inr (Or.inr ⟨rfl, hplayer, congrArg Option.toList hnone⟩)
    | discovery =>
        rcases hsubscriptions with ⟨-, hsame⟩ | ⟨hfirst, hnone, -⟩
        · exact Or.inl (congrArg (List.map Prod.snd) hsame)
        · exact Or.inr (Or.inr ⟨rfl, hfirst, congrArg (List.map Prod.snd) hnone⟩)
  · intro _ h
    cases h with
    | player =>
        refine ⟨fun hmem => absurd hmem hplayer, fun hmem => Or.inr ?_⟩
        rcases hregistration with ⟨hnot, -⟩ | hnone
        · exact absurd hmem hnot
        · exact congrArg Option.toList hnone
    | discovery =>
        refine ⟨fun _ => hdiscovery, fun _ => ?_⟩
        refine hsubscriptions.imp And.left ?_
        rintro ⟨-, hnone, -⟩
        exact congrArg (List.map Prod.snd) hnone
  · intro _ _
    exact hsubscriptions.imp (fun h => List.ne_nil_of_mem h.1) fun h => h.2.2

/-- A shutdown gives subscriptions back one by one, and last takes the registration of the player. -/
theorem goes_clearNext {peer : Peer} {before : Stake} {ids : List RegistrationId}
    (hstays : i.peer.Stays peer) (hregions : peer.subscriptions ⊆ i.peer.subscriptions)
    (hfills : before.fills = none)
    (hperm : (({ i with peer } : Instance).recorded ++ ids).Perm (i.recorded ++ before.owed))
    (hplayer : .player ∉ before.emptied)
    (hsubscriptions : .discovery ∈ before.emptied ∧ peer.subscriptions = i.peer.subscriptions ∨
      .discovery ∉ before.emptied ∧ peer.subscriptions = [] ∧ i.tasks = 0) :
    Goes .shutdown i live before (clearNext { i with peer } ids) := by
  cases ids with
  | cons id rest =>
      exact ⟨changes_of_empties hstays hregions hfills hperm hplayer (by decide) hsubscriptions
        (Or.inl ⟨by decide, rfl⟩), .waits (.clear id rest), rfl, fun _ => rfl⟩
  | nil =>
      cases hregistration : i.registration with
      | none =>
          have hsame : (({ i with peer, registration := none } : Instance).recorded ++ []).Perm
              (i.recorded ++ before.owed) := by
            rw [← hregistration]
            exact hperm
          exact ⟨changes_of_empties hstays hregions hfills hsame hplayer (by decide) hsubscriptions
            (Or.inr rfl), .done, rfl, fun _ => rfl⟩
      | some id =>
          have hmoved : (({ i with peer, registration := none } : Instance).recorded ++ [id]).Perm
              (i.recorded ++ before.owed) := by
            refine List.Perm.trans ?_ hperm
            rw [Instance.recorded, Instance.recorded, List.append_nil]
            simp only [Instance.kept, hregistration]
            exact List.perm_append_comm
          exact ⟨changes_of_empties hstays hregions hfills hmoved hplayer (by decide) hsubscriptions
            (Or.inr rfl), .waits (.retire id), rfl, fun _ => rfl⟩

/-- All tasks have ended, and the shutdown takes the subscriptions from the records. -/
theorem goes_stop (hconsistent : i.peer.Consistent) (hquiet : i.tasks = 0) :
    Goes .shutdown i live (stop.stake (some .quiet)) (stop.resume i .quiet) := by
  refine goes_clearNext (.step (σ := .sealing) hconsistent .releaseAll) (List.nil_subset _) rfl ?_
    (by decide) (Or.inr ⟨by decide, rfl, hquiet⟩)
  simp only [Instance.recorded, Instance.kept]
  rw [List.map_nil, List.append_nil]
  exact .of_eq (List.append_nil _).symm

theorem goes_clear (hconsistent : i.peer.Consistent) (id : RegistrationId)
    (rest : List RegistrationId) :
    Goes .shutdown i live ((clear id rest).stake (some (.removed (.ok ()))))
      ((clear id rest).resume i (.removed (.ok ()))) :=
  goes_clearNext (.refl hconsistent) (List.Subset.refl _) rfl (.refl _) (by simp [stake])
    (Or.inl ⟨by simp [stake], rfl⟩)

theorem goes_retire (hconsistent : i.peer.Consistent) (id : RegistrationId) :
    Goes .shutdown i live ((retire id).stake (some (.removed (.ok ()))))
      ((retire id).resume i (.removed (.ok ()))) :=
  ⟨.still (.refl hconsistent) rfl rfl rfl rfl nofun fun _ => rfl, .done, rfl, fun _ => rfl⟩

end Call

end RegionSync
