import RegionSync.Instance.Task
import RegionSync.Proofs.Peer.Dropping

/-!
Polls of different players. The answers of a sweep come in any order, and each moves, evicts or drops
its player in the table and the octree that all share. What becomes of a player hangs on its own entry
and on what no answer changes, so the order shows only in the order of names and of reports.
-/

namespace RegionSync.Peer

open RegionSync.Task (heardPoll)

variable {σ : Scheme} {peer after p q : Peer} {e f : EntityName} {r : RemotePlayer} {s : UInt32}
  {place : Point} {leaf : RegionPath}

/-- The peers hold the same about all that an answer for the player looks at. -/
structure Agrees (e : EntityName) (p q : Peer) : Prop where
  config : q.config = p.config
  geometry : q.geometry = p.geometry
  tracked : ∀ x, q.isTracked x = p.isTracked x
  player : q.player? e = p.player? e

/-- The outcomes are the same for one player. -/
structure SameFor (e : EntityName) (o o' : Outcome (Except Fault Unit)) : Prop where
  value : o'.value = o.value
  events : o'.events = o.events
  player : o'.peer.player? e = o.peer.player? e

/-- The peers differ at most in the order of their tables and of the names in a leaf. -/
structure Alike (p q : Peer) : Prop where
  rest : q = { p with players := q.players, octree := q.octree }
  players : q.players.Perm p.players
  tracked : ∀ x, q.isTracked x = p.isTracked x
  members : ∀ x e, q.octree.hasName x e = p.octree.hasName x e

/-! What becomes of an entry. -/

/-- An accepted position keeps its player in its own leaf or a tracked one, and no other. -/
theorem accept_entry (hpeer : peer.Consistent) (hknown : peer.player? e = some r)
    (hleaf : peer.geometry.leaf? place = some leaf) (s : UInt32) :
    let accepted := (peer.setPlayer r.heard).accept r.heard s place leaf
    (r.region = some leaf ∨ peer.isTracked leaf = true →
      accepted.1.player? e = some (r.accepted s place leaf) ∧
        accepted.2 = [.located e (.known place)]) ∧
    (r.region ≠ some leaf → peer.isTracked leaf = false →
      accepted.1.player? e = none ∧
        accepted.2 = [.log .info s!"{e} left tracked space for {leaf}",
          .located e (.known place)]) := by
  intro accepted
  obtain rfl := name_of_player? hknown
  obtain ⟨old, hold, -, -⟩ := hpeer.housed r (mem_of_player? hknown)
  have hentry : ∀ octree, (({ peer with octree } : Peer).setPlayer (r.accepted s place leaf)).player?
      r.name = some (r.accepted s place leaf) := fun octree =>
    player?_setPlayer_eq hknown (r.accepted s place leaf) rfl
  constructor
  · intro hstays
    by_cases hhome : r.region = some leaf
    · have haccept := accept_home peer s place hhome
      exact ⟨(congrArg (fun o => o.1.player? r.name) haccept).trans (hentry peer.octree),
        congrArg Prod.snd haccept⟩
    · have hne : old ≠ leaf := fun heq => hhome (heq ▸ hold)
      obtain ⟨octree, -, haccept⟩ := accept_moved (hpeer.isLeaf_of_leaf? hleaf) hold hne
        (hstays.resolve_left hhome) s place
      exact ⟨(congrArg (fun o => o.1.player? r.name) haccept).trans (hentry octree),
        congrArg Prod.snd haccept⟩
  · intro haway huntracked
    have hne : old ≠ leaf := fun heq => haway (heq ▸ hold)
    have haccept := accept_evicted hold hne (Bool.eq_false_iff.1 huntracked) s place
    have hgone : (peer.forget r.name).player? r.name = none :=
      player?_eq_none_iff.2 (by simp [forget])
    exact ⟨(congrArg (fun o => o.1.player? r.name) haccept).trans hgone, congrArg Prod.snd haccept⟩

/-- What an answer comes to for its player, in peers that agree about that one. -/
theorem apply_same (hp : p.Consistent) (hq : q.Consistent) (h : Agrees e p q)
    (hknown : p.player? e = some r) (s : UInt32) (payload : Payload) :
    SameFor e ((p.setPlayer r.heard).apply r.heard s payload)
      ((q.setPlayer r.heard).apply r.heard s payload) := by
  have hknown' : q.player? e = some r := h.player.trans hknown
  have hwindow : (q.setPlayer r.heard).window = (p.setPlayer r.heard).window :=
    congrArg Config.window h.config
  have hheard : (p.setPlayer r.heard).player? e = some r.heard := player?_setPlayer_eq hknown _ rfl
  have hheard' : (q.setPlayer r.heard).player? e = some r.heard := player?_setPlayer_eq hknown' _ rfl
  have hsame : (q.setPlayer r.heard).player? e = (p.setPlayer r.heard).player? e :=
    hheard'.trans hheard.symm
  cases payload with
  | reset goal reason =>
      simp only [apply, hwindow]
      cases (p.setPlayer r.heard).window.prev goal with
      | error fault => exact ⟨rfl, rfl, hsame⟩
      | ok t =>
          exact ⟨rfl, rfl, (player?_setPlayer_eq hheard' (r.resetTo t) rfl).trans
            (player?_setPlayer_eq hheard (r.resetTo t) rfl).symm⟩
  | position place =>
      have hgeometry : (q.setPlayer r.heard).geometry.leaf? place =
          (p.setPlayer r.heard).geometry.leaf? place := congrArg (·.leaf? place) h.geometry
      simp only [apply, hwindow, hgeometry]
      cases (p.setPlayer r.heard).window.isNewer r.heard.sequence s with
      | error fault => exact ⟨rfl, rfl, hsame⟩
      | ok newer =>
          cases newer with
          | false => exact ⟨rfl, rfl, hsame⟩
          | true =>
              cases hleaf : (p.setPlayer r.heard).geometry.leaf? place with
              | none => exact ⟨rfl, rfl, hsame⟩
              | some leaf =>
                  obtain ⟨hstays, hleaves⟩ := accept_entry hp hknown hleaf s
                  obtain ⟨hstays', hleaves'⟩ := accept_entry hq hknown' (hgeometry.trans hleaf) s
                  by_cases hhome : r.region = some leaf ∨ p.isTracked leaf = true
                  · obtain ⟨hentry, hevents⟩ := hstays hhome
                    obtain ⟨hentry', hevents'⟩ := hstays' (h.tracked leaf ▸ hhome)
                    exact ⟨rfl, hevents'.trans hevents.symm, hentry'.trans hentry.symm⟩
                  · obtain ⟨haway, huntracked⟩ := not_or.1 hhome
                    rw [Bool.not_eq_true] at huntracked
                    obtain ⟨hentry, hevents⟩ := hleaves haway huntracked
                    obtain ⟨hentry', hevents'⟩ := hleaves' haway ((h.tracked leaf).trans huntracked)
                    exact ⟨rfl, hevents'.trans hevents.symm, hentry'.trans hentry.symm⟩

theorem hear_same (hp : p.Consistent) (hq : q.Consistent) (h : Agrees e p q) (response : Response) :
    SameFor e (p.hear σ e response) (q.hear σ e response) := by
  unfold hear
  dsimp only
  rw [h.player]
  cases hknown : p.player? e with
  | none => exact ⟨rfl, rfl, h.player⟩
  | some r =>
      dsimp only
      cases (readAnswer σ e response).1 with
      | none =>
          exact ⟨rfl, rfl, (player?_setPlayer_eq (h.player.trans hknown) r.heard rfl).trans
            (player?_setPlayer_eq hknown r.heard rfl).symm⟩
      | some answer => exact apply_same hp hq h hknown answer.1 answer.2

theorem miss_same (h : Agrees e p q) : SameFor e (p.miss e) (q.miss e) := by
  unfold miss
  rw [h.player, h.config]
  cases hknown : p.player? e with
  | none => exact ⟨rfl, rfl, h.player⟩
  | some r =>
      have hentry : ∀ q' : RemotePlayer, q'.name = r.name →
          (q.setPlayer q').player? e = (p.setPlayer q').player? e := fun q' hname =>
        (player?_setPlayer_eq (h.player.trans hknown) q' hname).trans
          (player?_setPlayer_eq hknown q' hname).symm
      dsimp only
      cases Word.add r.timeouts 1 with
      | error fault => exact ⟨rfl, rfl, hentry r.heard rfl⟩
      | ok timeouts =>
          dsimp only
          split
          · exact ⟨rfl, rfl, hentry _ rfl⟩
          · have hgone : ∀ peer : Peer, (peer.forget e).player? e = none := fun peer =>
              player?_eq_none_iff.2 (by simp [forget])
            exact ⟨rfl, rfl, (hgone q).trans (hgone p).symm⟩

/-- What a poll comes to for its player, in peers that agree about that one. -/
theorem heardPoll_same (hp : p.Consistent) (hq : q.Consistent) (h : Agrees e p q) (heard : RegionSync.Heard) :
    SameFor e (heardPoll σ p e heard) (heardPoll σ q e heard) := by
  cases heard with
  | response response => exact hear_same hp hq h response
  | silence => exact miss_same h
  | failure reason => exact miss_same h
  | broken => exact ⟨rfl, rfl, h.player⟩

/-! What becomes of the others. -/

theorem Consistent.heardPoll (hpeer : peer.Consistent) (e : EntityName) (heard : RegionSync.Heard) :
    (heardPoll σ peer e heard).peer.Consistent := by
  cases heard with
  | response response => exact hpeer.hear e response
  | silence => exact hpeer.miss e
  | failure reason => exact hpeer.miss e
  | broken => exact hpeer

theorem touches_heardPoll (hpeer : peer.Consistent) (e : EntityName) (heard : RegionSync.Heard) :
    Touches e peer (heardPoll σ peer e heard).peer := by
  cases heard with
  | response response => exact touches_hear hpeer e response
  | silence => exact touches_miss hpeer e
  | failure reason => exact touches_miss hpeer e
  | broken => exact .refl e peer

/-- The poll of one player is nothing to another. -/
theorem Touches.agrees (h : Touches e peer after) (hne : f ≠ e) : Agrees f peer after where
  config := (congrArg Peer.config h.rest).trans rfl
  geometry := (congrArg Peer.geometry h.rest).trans rfl
  tracked := h.tracked
  player := h.player?_eq hne

/-! Peers that are alike. -/

theorem rest_symm (h : q = { p with players := q.players, octree := q.octree }) :
    p = { q with players := p.players, octree := p.octree } := by
  obtain ⟨players, octree, rfl⟩ : ∃ players octree, q = { p with players, octree } := ⟨_, _, h⟩
  rfl

theorem rest_trans (h : p = { peer with players := p.players, octree := p.octree })
    (h' : q = { p with players := q.players, octree := q.octree }) :
    q = { peer with players := q.players, octree := q.octree } := by
  obtain ⟨players, octree, rfl⟩ : ∃ players octree, p = { peer with players, octree } := ⟨_, _, h⟩
  exact h'

/-- Consistent peers are alike if they have the same entries and the same besides. -/
theorem alike_of_player? (hp : p.Consistent) (hq : q.Consistent)
    (hrest : q = { p with players := q.players, octree := q.octree })
    (htracked : ∀ x, q.isTracked x = p.isTracked x) (hplayer : ∀ e, q.player? e = p.player? e) :
    Alike p q := by
  have hself : q.self = p.self := (congrArg Peer.self hrest).trans rfl
  have hmem : ∀ r, r ∈ q.players ↔ r ∈ p.players := by
    have hfound : ∀ {peer : Peer}, peer.Consistent → ∀ r,
        r ∈ peer.players ↔ peer.player? r.name = some r := fun hpeer r =>
      ((player?_eq_some_iff hpeer.nodup).trans (and_iff_left rfl)).symm
    intro r
    rw [hfound hq, hfound hp, hplayer]
  refine ⟨hrest, ?_, htracked, fun x e => ?_⟩
  · exact (List.perm_ext_iff_of_nodup hq.nodup.of_map hp.nodup.of_map).2 hmem
  · rw [Bool.eq_iff_iff, hq.listed, hp.listed, hself]
    simp only [hmem]

theorem Alike.agrees (hp : p.Consistent) (hq : q.Consistent) (h : Alike p q) (e : EntityName) :
    Agrees e p q where
  config := (congrArg Peer.config h.rest).trans rfl
  geometry := (congrArg Peer.geometry h.rest).trans rfl
  tracked := h.tracked
  player := by
    apply Option.ext
    intro r
    rw [player?_eq_some_iff hq.nodup, player?_eq_some_iff hp.nodup, h.players.mem_iff]

theorem Alike.refl (peer : Peer) : Alike peer peer :=
  ⟨rfl, .refl _, fun _ => rfl, fun _ _ => rfl⟩

theorem Alike.trans (h : Alike peer p) (h' : Alike p q) : Alike peer q where
  rest := rest_trans h.rest h'.rest
  players := h'.players.trans h.players
  tracked x := (h'.tracked x).trans (h.tracked x)
  members x e := (h'.members x e).trans (h.members x e)

/-- A poll comes to the same in alike peers, and they stay alike. -/
theorem Alike.heardPoll (hp : p.Consistent) (hq : q.Consistent) (h : Alike p q) (e : EntityName)
    (heard : RegionSync.Heard) :
    Alike (heardPoll σ p e heard).peer (heardPoll σ q e heard).peer ∧
      (heardPoll σ q e heard).events = (heardPoll σ p e heard).events := by
  have hsame := heardPoll_same (σ := σ) hp hq (h.agrees hp hq e) heard
  have htouch := touches_heardPoll (σ := σ) hp e heard
  have htouch' := touches_heardPoll (σ := σ) hq e heard
  refine ⟨alike_of_player? (hp.heardPoll e heard) (hq.heardPoll e heard) ?_ ?_ ?_, hsame.events⟩
  · exact rest_trans (rest_symm htouch.rest) (rest_trans h.rest htouch'.rest)
  · intro x
    rw [htouch'.tracked, htouch.tracked, h.tracked]
  · intro f
    by_cases hf : f = e
    · rw [hf]
      exact hsame.player
    · rw [htouch'.player?_eq hf, htouch.player?_eq hf, (h.agrees hp hq f).player]

/-! Two polls, and all polls of a sweep. -/

/-- Of two polls of different players, each comes to what it would come to as the first. -/
theorem heardPoll_comm (hpeer : peer.Consistent) (hne : e ≠ f) (a b : RegionSync.Heard) :
    let first := heardPoll σ peer e a
    let second := heardPoll σ peer f b
    Alike (heardPoll σ first.peer f b).peer (heardPoll σ second.peer e a).peer ∧
      SameFor f second (heardPoll σ first.peer f b) ∧
      SameFor e first (heardPoll σ second.peer e a) := by
  intro first second
  have hfirst : first.peer.Consistent := hpeer.heardPoll e a
  have hsecond : second.peer.Consistent := hpeer.heardPoll f b
  have htouch : Touches e peer first.peer := touches_heardPoll hpeer e a
  have htouch' : Touches f peer second.peer := touches_heardPoll hpeer f b
  have hthen := touches_heardPoll (σ := σ) hfirst f b
  have hthen' := touches_heardPoll (σ := σ) hsecond e a
  have hsame := heardPoll_same (σ := σ) hpeer hfirst (htouch.agrees hne.symm) b
  have hsame' := heardPoll_same (σ := σ) hpeer hsecond (htouch'.agrees hne) a
  refine ⟨alike_of_player? (hfirst.heardPoll f b) (hsecond.heardPoll e a) ?_ ?_ ?_, hsame, hsame'⟩
  · exact rest_trans (rest_symm (rest_trans htouch.rest hthen.rest))
      (rest_trans htouch'.rest hthen'.rest)
  · intro x
    rw [hthen'.tracked, htouch'.tracked, hthen.tracked, htouch.tracked]
  · intro x
    by_cases hx : x = e
    · rw [hx, hsame'.player, hthen.player?_eq hne]
    · rw [hthen'.player?_eq hx]
      by_cases hx' : x = f
      · rw [hx', hsame.player]
      · rw [htouch'.player?_eq hx', hthen.player?_eq hx', htouch.player?_eq hx]

/-- Polls that are heard of one after the other. -/
def heardPolls (σ : Scheme) : Peer → List (EntityName × RegionSync.Heard) → Peer × List Event
  | peer, [] => (peer, [])
  | peer, (name, heard) :: rest =>
    let outcome := heardPoll σ peer name heard
    let (after, events) := heardPolls σ outcome.peer rest
    (after, outcome.events ++ events)

theorem Alike.heardPolls (hp : p.Consistent) (hq : q.Consistent) (h : Alike p q)
    (polls : List (EntityName × RegionSync.Heard)) :
    Alike (p.heardPolls σ polls).1 (q.heardPolls σ polls).1 ∧
      (q.heardPolls σ polls).2 = (p.heardPolls σ polls).2 := by
  induction polls generalizing p q with
  | nil => exact ⟨h, rfl⟩
  | cons poll polls ih =>
      obtain ⟨name, heard⟩ := poll
      obtain ⟨halike, hevents⟩ := h.heardPoll (σ := σ) hp hq name heard
      obtain ⟨hrest, hothers⟩ := ih (hp.heardPoll name heard) (hq.heardPoll name heard) halike
      exact ⟨hrest, congrArg₂ (· ++ ·) hevents hothers⟩

/-- A sweep polls every player once, and hears of the polls in any order. -/
theorem heardPolls_perm (hpeer : peer.Consistent) {polls polls' : List (EntityName × RegionSync.Heard)}
    (hperm : polls.Perm polls') (hnodup : (polls.map (·.1)).Nodup) :
    Alike (peer.heardPolls σ polls).1 (peer.heardPolls σ polls').1 ∧
      (peer.heardPolls σ polls).2.Perm (peer.heardPolls σ polls').2 := by
  induction hperm generalizing peer with
  | nil => exact ⟨.refl peer, .nil⟩
  | cons poll hperm ih =>
      obtain ⟨name, heard⟩ := poll
      obtain ⟨halike, hevents⟩ := ih (hpeer.heardPoll name heard) (List.nodup_cons.1 hnodup).2
      exact ⟨halike, hevents.append_left _⟩
  | swap poll poll' polls =>
      obtain ⟨e, a⟩ := poll'
      obtain ⟨f, b⟩ := poll
      have hne : e ≠ f := fun heq => (List.nodup_cons.1 hnodup).1 (heq ▸ List.mem_cons_self)
      obtain ⟨halike, hsame, hsame'⟩ := heardPoll_comm (σ := σ) hpeer hne a b
      obtain ⟨hrest, hothers⟩ := halike.heardPolls (σ := σ) ((hpeer.heardPoll e a).heardPoll f b)
        ((hpeer.heardPoll f b).heardPoll e a) polls
      refine ⟨hrest, ?_⟩
      simp only [heardPolls, hsame.events, hsame'.events, hothers, ← List.append_assoc]
      exact List.perm_append_comm.append_right _
  | trans hperm hperm' ih ih' =>
      obtain ⟨halike, hevents⟩ := ih hpeer hnodup
      obtain ⟨halike', hevents'⟩ := ih' hpeer ((hperm.map _).nodup_iff.1 hnodup)
      exact ⟨halike.trans halike', hevents.trans hevents'⟩

/-- In a reachable state the polls of two players commute, whatever is heard of them: in either order
the peer ends up with the same entries, own player, tracked leaves and subscriptions, and with the same
members in every leaf, each poll has the same result, and the reports are the same up to their order. -/
theorem polls_commute (hpeer : peer.Reachable σ) (hne : e ≠ f) (a b : RegionSync.Heard) :
    let first := heardPoll σ peer e a
    let forth := heardPoll σ first.peer f b
    let second := heardPoll σ peer f b
    let back := heardPoll σ second.peer e a
    Alike forth.peer back.peer ∧ forth.value = second.value ∧ back.value = first.value ∧
      (first.events ++ forth.events).Perm (second.events ++ back.events) := by
  intro first forth second back
  obtain ⟨halike, hsame, hsame'⟩ := heardPoll_comm (σ := σ) hpeer.consistent hne a b
  refine ⟨halike, hsame.value, hsame'.value, ?_⟩
  rw [hsame.events, hsame'.events]
  exact List.perm_append_comm

/-- Two players come into the same leaf, whose list of names is all that tells the orders apart. -/
theorem polls_commute_bob_carol :
    let bob : EntityName := ⟨"/hub", "bob"⟩
    let carol : EntityName := ⟨"/hub", "carol"⟩
    ∃ (peer : Peer) (a b : RegionSync.Heard), peer.Reachable .sealing ∧
      let forth := heardPoll .sealing (heardPoll .sealing peer bob a).peer carol b
      let back := heardPoll .sealing (heardPoll .sealing peer carol b).peer bob a
      forth.peer.namesIn ⟨[0, 4]⟩ = [bob, carol] ∧ back.peer.namesIn ⟨[0, 4]⟩ = [carol, bob] ∧
        Alike forth.peer back.peer := by
  intro bob carol
  let config : Config := { hub := "/hub", depth := 2, worldBits := 2 }
  let sealed (name : Name) (content : String) : Response :=
    ⟨name, Text.bytesOf content, 0, 0, Response.signable name (Text.bytesOf content) 0 0, []⟩
  let heard (name : EntityName) : RegionSync.Heard := .response (sealed (name.numbered 0) "1,0,0")
  let operations : List Operation := [.track ⟨[0, 0]⟩, .track ⟨[0, 4]⟩,
    .learn (sealed .root "/hub:bob /hub:carol 0/0\n")]
  have hmade : (made? config "alice" ⟨.zero, .zero, .zero⟩ []).any (fun start => decide
      ((heardPoll .sealing (heardPoll .sealing (start.run .sealing operations) bob (heard bob)).peer
          carol (heard carol)).peer.namesIn ⟨[0, 4]⟩ = [bob, carol] ∧
        (heardPoll .sealing (heardPoll .sealing (start.run .sealing operations) carol
          (heard carol)).peer bob (heard bob)).peer.namesIn ⟨[0, 4]⟩ = [carol, bob])) = true := by
    decide +kernel
  obtain ⟨start, hstart, hreached⟩ := exists_make hmade
  obtain ⟨hforth, hback⟩ := of_decide_eq_true hreached
  have hpeer : (start.run .sealing operations).Reachable .sealing :=
    ⟨config, _, _, _, start, operations, hstart, rfl⟩
  have hne : bob ≠ carol := by decide
  exact ⟨_, heard bob, heard carol, hpeer, hforth, hback,
    (polls_commute hpeer hne (heard bob) (heard carol)).1⟩

end RegionSync.Peer
