import Mathlib.Data.List.Nodup
import RegionSync.Proofs.Peer.Run
import RegionSync.Proofs.Region.Octree

/-!
Where players are listed. A peer notes the leaf of a player twice, in the player's entry and in the
octree, and every operation keeps the two in step: its own player stands in the leaf of its entry
and nowhere else, each player of the table in the tracked leaf of its entry and nowhere else, and
nobody else stands anywhere.
-/

namespace RegionSync

namespace RemotePlayer

/-- What an entry says about where its player is listed. -/
def card (r : RemotePlayer) : EntityName × Option RegionPath :=
  (r.name, r.region)

theorem card_eq_iff {r : RemotePlayer} {e : EntityName} {p : RegionPath} :
    r.card = (e, some p) ↔ r.name = e ∧ r.region = some p := by
  rw [card, Prod.mk.injEq]

end RemotePlayer

namespace Peer

variable {peer after : Peer} {r q : RemotePlayer} {name e : EntityName} {leaf p : RegionPath}

/-- The table and the octree agree about who is where. -/
structure Consistent (peer : Peer) : Prop where
  wellFormed : peer.octree.WellFormed
  geometry : peer.octree.geometry = peer.geometry
  leaf : peer.octree.isLeaf peer.self.region = true
  nodup : (peer.players.map (·.name)).Nodup
  foreign : ∀ r ∈ peer.players, r.name ≠ peer.self.name
  housed : ∀ r ∈ peer.players, ∃ p, r.region = some p ∧
    peer.octree.isTracked p = true ∧ peer.octree.isLeaf p = true
  listed : ∀ p e, peer.octree.hasName p e = true ↔
    e = peer.self.name ∧ p = peer.self.region ∨ ∃ r ∈ peer.players, r.card = (e, some p)
  alive : ∀ r ∈ peer.players, r.location ≠ .dropped

/-! The table by names. -/

theorem mem_of_player? (h : peer.player? name = some r) : r ∈ peer.players :=
  List.mem_of_find?_eq_some h

theorem name_of_player? (h : peer.player? name = some r) : r.name = name := by
  simpa using List.find?_some h

theorem player?_eq_none_iff : peer.player? name = none ↔ ∀ r ∈ peer.players, r.name ≠ name := by
  simp [player?]

theorem eq_of_name_eq (h : (peer.players.map (·.name)).Nodup) (hr : r ∈ peer.players)
    (hq : q ∈ peer.players) (hname : r.name = q.name) : r = q :=
  List.inj_on_of_nodup_map h hr hq hname

/-- With different names in the table, each entry is the one of its name. -/
theorem player?_eq_some_iff (h : (peer.players.map (·.name)).Nodup) :
    peer.player? name = some r ↔ r ∈ peer.players ∧ r.name = name := by
  refine ⟨fun hr => ⟨mem_of_player? hr, name_of_player? hr⟩, fun ⟨hr, hname⟩ => ?_⟩
  cases hfound : peer.player? name with
  | none => exact absurd hname (player?_eq_none_iff.1 hfound r hr)
  | some q =>
      rw [eq_of_name_eq h (mem_of_player? hfound) hr ((name_of_player? hfound).trans hname.symm)]

theorem isSome_player?_iff : (peer.player? e).isSome = true ↔ e ∈ peer.players.map (·.name) := by
  simp [player?]

/-! An entry changed. -/

theorem names_setPlayer (peer : Peer) (r : RemotePlayer) :
    (peer.setPlayer r).players.map (·.name) = peer.players.map (·.name) := by
  rw [setPlayer, List.map_map]
  refine List.map_congr_left fun x _ => ?_
  rw [Function.comp_apply]
  split
  · next heq => exact heq.symm
  · rfl

/-- Of two changes of an entry the last one counts. -/
theorem setPlayer_setPlayer (peer : Peer) {r q : RemotePlayer} (hname : q.name = r.name) :
    (peer.setPlayer r).setPlayer q = peer.setPlayer q := by
  simp only [setPlayer, List.map_map]
  congr 1
  apply List.map_congr_left
  intro x _
  rw [Function.comp_apply, ← hname]
  by_cases hx : x.name = q.name
  · rw [if_pos hx, if_pos hname.symm, if_pos hx]
  · rw [if_neg hx, if_neg hx]

theorem forget_setPlayer (peer : Peer) (r : RemotePlayer) :
    (peer.setPlayer r).forget r.name = peer.forget r.name := by
  simp only [setPlayer, forget, List.filter_map]
  congr 1
  have hothers : ((fun q : RemotePlayer => q.name != r.name) ∘
      fun q => if q.name = r.name then r else q) = fun q => q.name != r.name := by
    funext q
    rw [Function.comp_apply]
    split
    · next heq => rw [heq]
    · rfl
  rw [hothers]
  apply (List.map_congr_left _).trans (List.map_id _)
  intro q hq
  rw [if_neg (by simpa using (List.mem_filter.1 hq).2)]
  rfl

theorem isSome_player?_setPlayer (peer : Peer) (r : RemotePlayer) :
    ((peer.setPlayer r).player? e).isSome = (peer.player? e).isSome := by
  rw [Bool.eq_iff_iff, isSome_player?_iff, isSome_player?_iff, names_setPlayer]

theorem mem_setPlayer (h : q ∈ (peer.setPlayer r).players) :
    q = r ∨ q ∈ peer.players ∧ q.name ≠ r.name := by
  obtain ⟨x, hx, rfl⟩ := List.mem_map.1 h
  split
  · exact Or.inl rfl
  · next hne => exact Or.inr ⟨hx, hne⟩

theorem mem_setPlayer_self (hr : r ∈ peer.players) {moved : RemotePlayer}
    (hname : moved.name = r.name) : moved ∈ (peer.setPlayer moved).players :=
  List.mem_map.2 ⟨r, hr, if_pos hname.symm⟩

theorem mem_setPlayer_of_ne (hq : q ∈ peer.players) (hne : q.name ≠ r.name) :
    q ∈ (peer.setPlayer r).players :=
  List.mem_map.2 ⟨q, hq, if_neg hne⟩

namespace Consistent

/-- Agreement hangs on the octree and on what the entries say about it. -/
theorem congr (h : peer.Consistent) (hoctree : after.octree = peer.octree)
    (hgeometry : after.geometry = peer.geometry) (hname : after.self.name = peer.self.name)
    (hregion : after.self.region = peer.self.region)
    (hcards : after.players.map (·.card) = peer.players.map (·.card))
    (halive : ∀ r ∈ after.players, r.location ≠ .dropped) : after.Consistent := by
  have hentry : ∀ r ∈ after.players, ∃ q ∈ peer.players, q.card = r.card := by
    intro r hr
    have hmem : r.card ∈ peer.players.map (·.card) := hcards ▸ List.mem_map_of_mem hr
    exact List.mem_map.1 hmem
  have hnames : after.players.map (·.name) = peer.players.map (·.name) := by
    have hfst := congrArg (List.map Prod.fst) hcards
    rwa [List.map_map, List.map_map] at hfst
  refine ⟨hoctree ▸ h.wellFormed, ?_, ?_, hnames ▸ h.nodup, ?_, ?_, ?_, halive⟩
  · rw [hoctree, hgeometry, h.geometry]
  · rw [hoctree, hregion, h.leaf]
  · intro r hr
    obtain ⟨q, hq, hcard⟩ := hentry r hr
    rw [hname, show r.name = q.name from congrArg Prod.fst hcard.symm]
    exact h.foreign q hq
  · intro r hr
    obtain ⟨q, hq, hcard⟩ := hentry r hr
    rw [hoctree, show r.region = q.region from congrArg Prod.snd hcard.symm]
    exact h.housed q hq
  · intro p e
    have hmem : (∃ r ∈ after.players, r.card = (e, some p)) ↔
        ∃ r ∈ peer.players, r.card = (e, some p) := by
      rw [← List.mem_map, ← List.mem_map, hcards]
    rw [hoctree, hname, hregion, hmem, h.listed]

/-- In which order the table stands does not matter. -/
theorem reorder (h : peer.Consistent) {players : List RemotePlayer}
    (hplayers : players.Perm peer.players) : ({ peer with players } : Peer).Consistent := by
  have hmem : ∀ {r}, r ∈ players ↔ r ∈ peer.players := hplayers.mem_iff
  refine ⟨h.wellFormed, h.geometry, h.leaf, (hplayers.map _).nodup_iff.2 h.nodup,
    fun r hr => h.foreign r (hmem.1 hr), fun r hr => h.housed r (hmem.1 hr), fun p e => ?_,
    fun r hr => h.alive r (hmem.1 hr)⟩
  simp only [hmem]
  exact h.listed p e

theorem setPlayer (h : peer.Consistent) (hq : q ∈ peer.players) (hcard : r.card = q.card)
    (halive : r.location ≠ .dropped) : (peer.setPlayer r).Consistent := by
  refine h.congr rfl rfl rfl rfl ?_ ?_
  · simp only [Peer.setPlayer, List.map_map]
    refine List.map_congr_left fun x hx => ?_
    simp only [Function.comp_apply]
    split
    · next hname =>
        rw [hcard, eq_of_name_eq h.nodup hx hq (hname.trans (congrArg Prod.fst hcard))]
    · rfl
  · intro x hx
    rcases mem_setPlayer hx with rfl | ⟨hx, -⟩
    · exact halive
    · exact h.alive x hx

/-- A player of the table is listed in the leaf of its entry, and in no other. -/
theorem hasName_player (h : peer.Consistent) (hr : r ∈ peer.players) (hp : r.region = some p)
    (x : RegionPath) : peer.octree.hasName x r.name = true ↔ x = p := by
  rw [h.listed]
  constructor
  · rintro (⟨hown, -⟩ | ⟨q, hq, hcard⟩)
    · exact absurd hown (h.foreign r hr)
    · obtain ⟨hname, hregion⟩ := RemotePlayer.card_eq_iff.1 hcard
      rw [eq_of_name_eq h.nodup hq hr hname, hp, Option.some.injEq] at hregion
      exact hregion.symm
  · rintro rfl
    exact Or.inr ⟨r, hr, RemotePlayer.card_eq_iff.2 ⟨rfl, hp⟩⟩

/-- Players leave the table and the octree together. -/
theorem evict (h : peer.Consistent) {octree : Octree} (keep : RemotePlayer → Bool)
    (hwell : octree.WellFormed) (hgeometry : octree.geometry = peer.octree.geometry)
    (htracked : ∀ r ∈ peer.players, keep r = true → ∀ p, r.region = some p →
      octree.isTracked p = peer.octree.isTracked p)
    (hlisted : ∀ p e, octree.hasName p e = true ↔ peer.octree.hasName p e = true ∧
      ¬ ∃ r ∈ peer.players, keep r = false ∧ r.card = (e, some p))
    (hplayers : after.players = peer.players.filter keep) (hoctree : after.octree = octree)
    (hself : after.self = peer.self) (hsame : after.geometry = peer.geometry) :
    after.Consistent := by
  have hleaf := Octree.isLeaf_congr hgeometry
  have hmem : ∀ {r}, r ∈ after.players ↔ r ∈ peer.players ∧ keep r = true := fun {r} => by
    rw [hplayers, List.mem_filter]
  refine ⟨hoctree ▸ hwell, ?_, ?_, ?_, ?_, ?_, ?_, ?_⟩
  · rw [hoctree, hgeometry, h.geometry, hsame]
  · rw [hoctree, hself, hleaf, h.leaf]
  · rw [hplayers]
    exact h.nodup.sublist (List.filter_sublist.map _)
  · intro r hr
    rw [hself]
    exact h.foreign r (hmem.1 hr).1
  · intro r hr
    obtain ⟨hr, hkeep⟩ := hmem.1 hr
    obtain ⟨p, hp, ht, hl⟩ := h.housed r hr
    refine ⟨p, hp, ?_, ?_⟩
    · rw [hoctree, htracked r hr hkeep p hp, ht]
    · rw [hoctree, hleaf, hl]
  · intro p e
    rw [hoctree, hself, hlisted, h.listed]
    constructor
    · rintro ⟨hown | ⟨r, hr, hcard⟩, hnot⟩
      · exact Or.inl hown
      · refine Or.inr ⟨r, hmem.2 ⟨hr, ?_⟩, hcard⟩
        cases hkeep : keep r with
        | true => rfl
        | false => exact absurd ⟨r, hr, hkeep, hcard⟩ hnot
    · rintro (⟨rfl, rfl⟩ | ⟨r, hr, hcard⟩)
      · refine ⟨Or.inl ⟨rfl, rfl⟩, ?_⟩
        rintro ⟨r, hr, -, hcard⟩
        exact h.foreign r hr (RemotePlayer.card_eq_iff.1 hcard).1
      · obtain ⟨hr, hkeep⟩ := hmem.1 hr
        refine ⟨Or.inr ⟨r, hr, hcard⟩, ?_⟩
        rintro ⟨q, hq, hnot, hcard'⟩
        have heq : q = r :=
          eq_of_name_eq h.nodup hq hr (congrArg Prod.fst (hcard'.trans hcard.symm))
        rw [heq, hkeep] at hnot
        cases hnot
  · intro r hr
    exact h.alive r (hmem.1 hr).1

theorem forget (h : peer.Consistent) (hr : r ∈ peer.players) (hp : r.region = some p) :
    ({ peer.forget r.name with octree := peer.octree.removeName p r.name }).Consistent := by
  refine h.evict (fun q => q.name != r.name) (h.wellFormed.removeName p r.name)
    (Octree.geometry_removeName ..) (fun _ _ _ _ _ => Octree.isTracked_removeName ..) ?_
    rfl rfl rfl rfl
  intro x e
  rw [Octree.hasName_removeName h.wellFormed]
  refine and_congr_right fun _ => not_congr ?_
  constructor
  · rintro ⟨rfl, rfl⟩
    exact ⟨r, hr, by simp, RemotePlayer.card_eq_iff.2 ⟨rfl, hp⟩⟩
  · rintro ⟨q, hq, hname, hcard⟩
    have heq : q = r := eq_of_name_eq h.nodup hq hr (by simpa using hname)
    rw [heq, RemotePlayer.card_eq_iff, hp, Option.some.injEq] at hcard
    exact ⟨hcard.2.symm, hcard.1.symm⟩

/-- Who is listed where once a player has moved to another leaf. -/
theorem hasName_moved (h : peer.Consistent) (hr : r ∈ peer.players) {old : RegionPath}
    (hold : r.region = some old) {octree : Octree}
    (hadd : (peer.octree.removeName old r.name).addName leaf r.name = .ok octree)
    {moved : RemotePlayer} (hcard : moved.card = (r.name, some leaf)) :
    octree.hasName p e = true ↔ e = peer.self.name ∧ p = peer.self.region ∨
      ∃ x ∈ (peer.setPlayer moved).players, x.card = (e, some p) := by
  have hname := (RemotePlayer.card_eq_iff.1 hcard).1
  rw [Octree.hasName_addName hadd, Octree.hasName_removeName h.wellFormed, h.listed]
  constructor
  · rintro (⟨⟨rfl, rfl⟩ | ⟨x, hx, hxcard⟩, hnot⟩ | ⟨rfl, rfl⟩)
    · exact Or.inl ⟨rfl, rfl⟩
    · refine Or.inr ⟨x, mem_setPlayer_of_ne hx fun hxname => hnot ?_, hxcard⟩
      rw [eq_of_name_eq h.nodup hx hr (hxname.trans hname), RemotePlayer.card_eq_iff, hold,
        Option.some.injEq] at hxcard
      exact ⟨hxcard.2.symm, hxcard.1.symm⟩
    · exact Or.inr ⟨moved, mem_setPlayer_self hr hname, hcard⟩
  · rintro (⟨rfl, rfl⟩ | ⟨x, hx, hxcard⟩)
    · exact Or.inl ⟨Or.inl ⟨rfl, rfl⟩, fun hown => h.foreign r hr hown.2.symm⟩
    · rcases mem_setPlayer hx with rfl | ⟨hx, hne⟩
      · rw [hcard] at hxcard
        simp only [Prod.mk.injEq, Option.some.injEq] at hxcard
        exact Or.inr ⟨hxcard.2.symm, hxcard.1.symm⟩
      · refine Or.inl ⟨Or.inr ⟨x, hx, hxcard⟩, fun hown => hne ?_⟩
        exact (RemotePlayer.card_eq_iff.1 hxcard).1.trans (hown.2.trans hname.symm)

theorem rehouse (h : peer.Consistent) (hr : r ∈ peer.players) {old : RegionPath}
    (hold : r.region = some old) (htracked : peer.octree.isTracked leaf = true) {octree : Octree}
    (hadd : (peer.octree.removeName old r.name).addName leaf r.name = .ok octree)
    {moved : RemotePlayer} (hcard : moved.card = (r.name, some leaf))
    (halive : moved.location ≠ .dropped) :
    (({ peer with octree } : Peer).setPlayer moved).Consistent := by
  obtain ⟨hgeometry, hkept, hleaf⟩ := Octree.frame_of_move hadd
  have hisLeaf := Octree.isLeaf_congr hgeometry
  obtain ⟨hname, hregion⟩ := RemotePlayer.card_eq_iff.1 hcard
  refine ⟨(h.wellFormed.removeName old r.name).addName hadd, hgeometry.trans h.geometry,
    (hisLeaf _).trans h.leaf, ?_, ?_, ?_, fun p e => h.hasName_moved hr hold hadd hcard, ?_⟩
  · exact names_setPlayer peer moved ▸ h.nodup
  · intro x hx
    rcases mem_setPlayer hx with rfl | ⟨hx, -⟩
    · exact hname ▸ h.foreign r hr
    · exact h.foreign x hx
  · intro x hx
    rcases mem_setPlayer hx with rfl | ⟨hx, -⟩
    · exact ⟨leaf, hregion, (hkept leaf).trans htracked, hleaf⟩
    · obtain ⟨p, hp, ht, hl⟩ := h.housed x hx
      exact ⟨p, hp, (hkept p).trans ht, (hisLeaf p).trans hl⟩
  · intro x hx
    rcases mem_setPlayer hx with rfl | ⟨hx, -⟩
    · exact halive
    · exact h.alive x hx

end Consistent

end Peer

end RegionSync
