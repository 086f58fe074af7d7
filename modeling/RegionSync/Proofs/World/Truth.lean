import RegionSync.Proofs.Random.Normal
import RegionSync.Proofs.Region.Geometry
import RegionSync.World.Truth

/-!
Where avatars can be. Whatever is done, every coordinate stays between zero and the limit. The limit is
a margin below the extent, except in the widest world: there the difference has no digit for the margin
and is rounded to the extent, which is outside.
-/

namespace RegionSync.Truth

open Binary

variable {g : Geometry} {t : Truth} {c : Single} {p : Point} {id : Nat}

/-! What can be done to a world. -/

inductive Act
  | place (id : Nat) (position : Point)
  | spawn (id : Nat) (region : RegionPath) (inset : Single)
  | setSpeed (speed : Single)
  | step (seconds : Double)
  | freeze (id : Nat)
  | remove (id : Nat)

def act (t : Truth) : Act → Except Fault Truth
  | .place id position => .ok (t.place id position)
  | .spawn id region inset => (t.spawnIn id region inset).map (·.2)
  | .setSpeed speed => .ok (t.setSpeed speed)
  | .step seconds => .ok (t.step seconds)
  | .freeze id => .ok (t.freeze id)
  | .remove id => .ok (t.remove id)

def run (t : Truth) (acts : List Act) : Except Fault Truth :=
  acts.foldlM act t

/-! The limit. -/

/-- The largest coordinate that an avatar can have. -/
def furthest (g : Geometry) : Single :=
  g.extent.sub margin

/-- In worlds of every size the limit is a number not below zero, and below the extent in all but the
widest. -/
theorem limits :
    ∀ bits < 25, (((ofNat (2 ^ bits) : Single).sub margin).isFinite = true ∧
      le zero ((ofNat (2 ^ bits) : Single).sub margin) = true) ∧
      (bits < 24 → lt ((ofNat (2 ^ bits) : Single).sub margin) (ofNat (2 ^ bits)) = true) := by
  decide +kernel

theorem isFinite_furthest (hg : g.Exact) : (furthest g).isFinite = true :=
  (limits _ (Nat.lt_succ_of_le hg.bits)).1.1

theorem zero_le_furthest (hg : g.Exact) : le zero (furthest g) = true :=
  (limits _ (Nat.lt_succ_of_le hg.bits)).1.2

theorem furthest_lt (h : g.worldBits.toNat < 24) : (furthest g).lt g.extent = true :=
  (limits _ (Nat.lt_succ_of_lt h)).2 h

/-- The tie between the two numbers next to the difference goes to the even one. -/
theorem furthest_eq (h : g.worldBits.toNat = 24) : furthest g = g.extent := by
  rw [furthest, Geometry.extent, h]
  decide +kernel

/-- A coordinate that an avatar can have. -/
def Kept (g : Geometry) (c : Single) : Prop :=
  le zero c = true ∧ c.le (furthest g) = true

theorem kept_zero (hg : g.Exact) : Kept g zero :=
  ⟨by decide, zero_le_furthest hg⟩

theorem Kept.isFinite (hg : g.Exact) (h : Kept g c) : c.isFinite = true :=
  isFinite_of_between rfl (isFinite_furthest hg) h.1 h.2

theorem kept_clamp (hg : g.Exact) (hc : c ≠ .nan) : Kept g (c.clamp .zero (furthest g)) :=
  clamp_between hc nofun (ne_nan_of_isFinite (isFinite_furthest hg)) (zero_le_furthest hg)

theorem inside_of_kept (h : Kept g c) (hbits : g.worldBits.toNat < 24) : g.inside c = true := by
  rw [Geometry.inside, Bool.and_eq_true]
  exact ⟨h.1, Binary.lt_of_le_of_lt h.2 (furthest_lt hbits)⟩

/-- In the widest world only the extent itself is outside. -/
theorem inside_or_eq_of_kept (h : Kept g c) (hbits : g.worldBits.toNat = 24) :
    g.inside c = true ∨ c = g.extent := by
  obtain ⟨hzero, hle⟩ := h
  rw [furthest_eq hbits, le, Bool.or_eq_true] at hle
  rcases hle with hlt | heq
  · left
    rw [Geometry.inside, Bool.and_eq_true]
    exact ⟨hzero, hlt⟩
  · right
    have hone := Width.single.one_pos
    rw [Geometry.extent, hbits, ofNat_eq (by decide)] at heq ⊢
    exact eq_finite_of_eq (Nat.mul_pos (by decide) hone) heq

/-! What a call keeps. -/

/-- The world has this geometry, and its avatars are where they can be. -/
structure Holds (g : Geometry) (t : Truth) : Prop where
  geometry : t.geometry = g
  kept : ∀ a ∈ t.avatars, ∀ c ∈ a.position.coordinates, Kept g c

theorem holds_ofSeed (g : Geometry) (seed : UInt64) : (ofSeed g seed).Holds g :=
  ⟨rfl, fun _ ha => absurd ha List.not_mem_nil⟩

theorem mem_insert {a b : Avatar} {avatars : List Avatar} (h : b ∈ insert a avatars) :
    b = a ∨ b ∈ avatars := by
  induction avatars with
  | nil => exact Or.inl (List.mem_singleton.1 h)
  | cons c rest ih =>
      rw [insert] at h
      split at h
      · exact List.mem_cons.1 h
      · rcases List.mem_cons.1 h with rfl | h
        · exact Or.inr List.mem_cons_self
        · exact (ih h).imp_right (List.mem_cons_of_mem c)

namespace Holds

theorem limit_eq (h : t.Holds g) : t.limit = furthest g := by
  rw [limit, h.geometry, furthest]

theorem bring (hg : g.Exact) (h : t.Holds g) (c : Single) : Kept g (t.bring c) := by
  rw [Truth.bring, h.limit_eq]
  split
  · exact kept_clamp hg (ne_nan_of_isFinite ‹_›)
  · exact kept_zero hg

theorem stray (hg : g.Exact) (h : t.Holds g) {delta : Single} (hc : Kept g c) (hdelta : delta ≠ .nan) :
    Kept g (t.stray c delta) := by
  rw [Truth.stray, h.limit_eq]
  exact kept_clamp hg (add_ne_nan (hc.isFinite hg) hdelta)

theorem place (hg : g.Exact) (h : t.Holds g) (id : Nat) (p : Point) : (t.place id p).Holds g := by
  have hbrought : ∀ c ∈ (p.map t.bring).coordinates, Kept g c :=
    Point.forall_coordinates.2 ⟨h.bring hg _, h.bring hg _, h.bring hg _⟩
  rw [Truth.place]
  split
  · refine ⟨h.geometry, fun a ha => ?_⟩
    obtain ⟨b, hb, rfl⟩ := List.mem_map.1 ha
    split
    · exact hbrought
    · exact h.kept b hb
  · refine ⟨h.geometry, fun a ha => ?_⟩
    rcases mem_insert ha with rfl | ha
    · exact hbrought
    · exact h.kept a ha

/-- Where avatars are does not hang on the source of their walk. -/
theorem source (h : t.Holds g) (source : Random.Generator) : ({ t with source } : Truth).Holds g :=
  ⟨h.geometry, h.kept⟩

theorem spawnIn (hg : g.Exact) (h : t.Holds g) (id : Nat) (region : RegionPath) (inset : Single) :
    ∃ spot t', t.spawnIn id region inset = .ok (spot, t') ∧ t'.Holds g := by
  rw [Truth.spawnIn]
  by_cases hreached : region.depth ≤ g.depth
  · have hcube : t.geometry.cubeOf region = .ok (.ok (g.cube region)) := by
      rw [h.geometry, hg.cubeOf_eq hreached]
    rw [hcube]
    exact ⟨_, _, rfl, (h.source _).place hg id _⟩
  · have hcube : t.geometry.cubeOf region = .ok (.error (.tooDeep region.depth g.depth)) := by
      rw [h.geometry, Geometry.cubeOf, if_pos (Nat.lt_of_not_le hreached)]
    rw [hcube]
    exact ⟨_, _, rfl, h⟩

/-- Nobody walks out: samples are numbers, and a sum that is too large is clamped too. -/
theorem walk (hg : g.Exact) (h : t.Holds g) {deviation : Single} (hdeviation : deviation.isFinite = true)
    {avatars : List Avatar} (hkept : ∀ a ∈ avatars, ∀ c ∈ a.position.coordinates, Kept g c)
    (source : Random.Generator) :
    ∀ a ∈ (t.walk deviation avatars source).1, ∀ c ∈ a.position.coordinates, Kept g c := by
  induction avatars generalizing source with
  | nil => exact hkept
  | cons a rest ih =>
      have hrest := ih fun b hb => hkept b (List.mem_cons_of_mem a hb)
      have ha := hkept a List.mem_cons_self
      rw [Truth.walk]
      split
      · intro b hb
        rcases List.mem_cons.1 hb with rfl | hb
        · exact ha
        · exact hrest _ b hb
      · have hdelta := Random.normal_ne_nan hdeviation
        obtain ⟨hx, hy, hz⟩ := Point.forall_coordinates.1 ha
        intro b hb
        rcases List.mem_cons.1 hb with rfl | hb
        · rw [Point.forall_coordinates]
          dsimp only
          exact ⟨h.stray hg hx (hdelta _), h.stray hg hy (hdelta _), h.stray hg hz (hdelta _)⟩
        · exact hrest _ b hb

theorem step (hg : g.Exact) (h : t.Holds g) (seconds : Double) : (t.step seconds).Holds g := by
  have hlater : ({ t with time := t.time.add seconds } : Truth).Holds g := ⟨h.geometry, h.kept⟩
  rw [Truth.step]
  dsimp only
  split
  · exact ⟨h.geometry, hlater.walk hg ‹_› h.kept t.source⟩
  · exact hlater

theorem freeze (h : t.Holds g) (id : Nat) : (t.freeze id).Holds g := by
  refine ⟨h.geometry, fun a ha => ?_⟩
  obtain ⟨b, hb, rfl⟩ := List.mem_map.1 ha
  split
  · exact h.kept b hb
  · exact h.kept b hb

theorem act (hg : g.Exact) (h : t.Holds g) (a : Act) : ∃ t', t.act a = .ok t' ∧ t'.Holds g := by
  cases a with
  | place id position => exact ⟨_, rfl, h.place hg id position⟩
  | spawn id region inset =>
      obtain ⟨spot, t', hspawn, hholds⟩ := h.spawnIn hg id region inset
      refine ⟨t', ?_, hholds⟩
      rw [Truth.act, hspawn]
      rfl
  | setSpeed speed => exact ⟨_, rfl, h.geometry, h.kept⟩
  | step seconds => exact ⟨_, rfl, h.step hg seconds⟩
  | freeze id => exact ⟨_, rfl, h.freeze id⟩
  | remove id => exact ⟨_, rfl, h.geometry, fun a ha => h.kept a (List.mem_filter.1 ha).1⟩

theorem run (hg : g.Exact) (h : t.Holds g) (acts : List Act) :
    ∃ t', t.run acts = .ok t' ∧ t'.Holds g := by
  induction acts generalizing t with
  | nil => exact ⟨t, rfl, h⟩
  | cons a acts ih =>
      obtain ⟨t₁, hact, h₁⟩ := h.act hg a
      obtain ⟨t₂, hrun, h₂⟩ := ih h₁
      refine ⟨t₂, ?_, h₂⟩
      rw [Truth.run, List.foldlM_cons, hact]
      exact hrun

/-- An avatar's leaf is the one of its position. -/
theorem leafOf_eq (hg : g.Exact) (h : t.Holds g) (hp : t.position? id = some p) :
    t.leafOf id = .ok (g.leaf? p) := by
  rw [leafOf, hp]
  dsimp only
  rw [h.geometry, Geometry.leaf?]
  by_cases hinside : g.inWorld p = true
  · rw [hg.leafAt_eq hinside, if_pos hinside]
    rfl
  · rw [Geometry.leafAt, Bool.eq_false_of_not_eq_true hinside]
    rfl

theorem kept_position (h : t.Holds g) (hp : t.position? id = some p) :
    ∀ c ∈ p.coordinates, Kept g c := by
  obtain ⟨a, ha, rfl⟩ := Option.map_eq_some_iff.1 hp
  exact h.kept a (List.mem_of_find?_eq_some ha)

end Holds

/-- Put beyond the far face of the widest world, an avatar is on the face. -/
theorem position?_place_beyond (hbits : g.worldBits.toNat = 24) (seed : UInt64) :
    ((ofSeed g seed).place 0 ⟨.ofNat (2 ^ 25), .zero, .zero⟩).position? 0 =
      some ⟨g.extent, .zero, .zero⟩ := by
  have hlimit : (ofSeed g seed).limit = .ofNat (2 ^ 24) := by
    rw [(holds_ofSeed g seed).limit_eq, furthest_eq hbits, Geometry.extent, hbits]
  have hbrought : Point.map (ofSeed g seed).bring ⟨.ofNat (2 ^ 25), .zero, .zero⟩ =
      ⟨.ofNat (2 ^ 24), .zero, .zero⟩ := by
    simp only [Point.map, bring, hlimit]
    decide +kernel
  rw [Truth.place, hbrought, Geometry.extent, hbits]
  rfl

theorem inWorld_of_inside (h : ∀ c ∈ p.coordinates, g.inside c = true) : g.inWorld p = true := by
  obtain ⟨hx, hy, hz⟩ := Point.forall_coordinates.1 h
  rw [Geometry.inWorld, hx, hy, hz]
  rfl

/-- Nothing that is done to a world fails, and an avatar's leaf is the one of its position, whose
coordinates are in the world or, in the widest world, the extent. All avatars of all runs have leaves
exactly if the world is not the widest. -/
theorem inside_iff_not_widest (hg : g.Exact) :
    (∀ (seed : UInt64) (acts : List Act), ∃ t, (ofSeed g seed).run acts = .ok t ∧
      ∀ (id : Nat) (p : Point), t.position? id = some p → t.leafOf id = .ok (g.leaf? p) ∧
        ∀ c ∈ p.coordinates, g.inside c = true ∨ g.worldBits.toNat = 24 ∧ c = g.extent) ∧
    ((∀ (seed : UInt64) (acts : List Act) (t : Truth) (id : Nat), (ofSeed g seed).run acts = .ok t →
      (t.position? id).isSome = true → ∃ leaf, t.leafOf id = .ok (some leaf)) ↔
      g.worldBits.toNat < 24) := by
  refine ⟨fun seed acts => ?_, fun h => ?_, fun hbits seed acts t id hrun hsome => ?_⟩
  · obtain ⟨t, hrun, hholds⟩ := (holds_ofSeed g seed).run hg acts
    refine ⟨t, hrun, fun id p hp => ⟨hholds.leafOf_eq hg hp, fun c hc => ?_⟩⟩
    have hkept := hholds.kept_position hp c hc
    rcases Nat.lt_or_eq_of_le hg.bits with hbits | hbits
    · exact Or.inl (inside_of_kept hkept hbits)
    · exact (inside_or_eq_of_kept hkept hbits).imp_right fun heq => ⟨hbits, heq⟩
  · refine Nat.lt_of_le_of_ne hg.bits fun hbits => ?_
    have hp := position?_place_beyond hbits 0
    have hholds := (holds_ofSeed g 0).place hg 0 ⟨.ofNat (2 ^ 25), .zero, .zero⟩
    obtain ⟨leaf, hleaf⟩ := h 0 [.place 0 ⟨.ofNat (2 ^ 25), .zero, .zero⟩] _ 0 rfl (by rw [hp]; rfl)
    have houtside : ¬ g.inWorld ⟨g.extent, .zero, .zero⟩ = true := by
      intro hin
      rw [Geometry.inWorld, Bool.and_eq_true, Bool.and_eq_true, Geometry.inside, Bool.and_eq_true] at hin
      dsimp only at hin
      exact Binary.lt_irrefl g.extent hin.1.1.2
    rw [hholds.leafOf_eq hg hp, Geometry.leaf?, if_neg houtside] at hleaf
    cases hleaf
  · obtain ⟨t', hrun', hholds⟩ := (holds_ofSeed g seed).run hg acts
    obtain rfl : t' = t := Except.ok.inj (hrun'.symm.trans hrun)
    obtain ⟨p, hp⟩ := Option.isSome_iff_exists.1 hsome
    have hinside := inWorld_of_inside fun c hc => inside_of_kept (hholds.kept_position hp c hc) hbits
    refine ⟨g.leaf p.x.floor p.y.floor p.z.floor, ?_⟩
    rw [hholds.leafOf_eq hg hp, Geometry.leaf?, if_pos hinside]

/-- In the standard world an avatar put beyond the far face has a leaf. In the widest world it has
none. -/
theorem inside_iff_not_widest_beyond :
    Geometry.standard.Exact ∧ (⟨7, 24⟩ : Geometry).Exact ∧
      (∃ leaf, ((ofSeed Geometry.standard 0).place 0 ⟨.ofNat (2 ^ 25), .zero, .zero⟩).leafOf 0 =
        .ok (some leaf)) ∧
      ∃ seed acts t id, (ofSeed ⟨7, 24⟩ seed).run acts = .ok t ∧ (t.position? id).isSome = true ∧
        ¬ ∃ leaf, t.leafOf id = .ok (some leaf) := by
  have hstandard : Geometry.standard.Exact := ⟨by decide, by decide, by decide⟩
  have hwidest : (⟨7, 24⟩ : Geometry).Exact := ⟨by decide, by decide, by decide⟩
  refine ⟨hstandard, hwidest, ?_, ?_⟩
  · have hplaced := (inside_iff_not_widest hstandard).2.2 (by decide) 0
      [.place 0 ⟨.ofNat (2 ^ 25), .zero, .zero⟩] _ 0 rfl
    exact hplaced (by decide +kernel)
  · have hnot : ¬ (24 : UInt32).toNat < 24 := by decide
    by_contra hall
    exact hnot ((inside_iff_not_widest hwidest).2.1 fun seed acts t id hrun hsome =>
      by_contra fun hnone => hall ⟨seed, acts, t, id, hrun, hsome, hnone⟩)

end RegionSync.Truth
