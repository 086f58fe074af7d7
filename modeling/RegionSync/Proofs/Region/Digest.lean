import RegionSync.Proofs.Region.Flat

/-!
Digests of regions. A leaf keeps the digest of its last refresh, and every operation that changes the
members of a leaf refreshes it; so what a leaf keeps is what its members fold to as they stand. The
digest of an inner region is computed when it is asked for, from the members gathered below.
-/

namespace RegionSync.Octree

variable {t : Octree} {p : RegionPath}

/-- The digest of a region is that of the members gathered in it, whether it is kept or computed. -/
theorem digest?_eq (ht : t.WellFormed) (p : RegionPath) :
    t.digest? p = (t.namesIn? p).map NameSet.computeDigest := by
  by_cases hleaf : t.isLeaf p = true
  · rw [digest?_leaf hleaf, namesIn?_leaf ht hleaf, Option.map_map, (ht.fresh p).2]
    rfl
  · rw [digest?, if_neg hleaf, namesIn?, Option.map_map, Option.map_map]
    rfl

/-- What the node of a leaf keeps, its members and their digest, is what is gathered there. -/
theorem namesIn?_of_lookup? (ht : t.WellFormed) (hleaf : t.isLeaf p = true) {k : Nat}
    {node : Octant k} (hlookup : t.lookup? p = some ⟨k, node⟩) :
    t.namesIn? p = some node.ownNames ∧ node.ownNames.Fresh := by
  rw [namesIn?_leaf ht hleaf, (contentAt_leaf hleaf hlookup).2, hlookup]
  exact ⟨rfl, ht.fresh p⟩

/-- After any operations, refused or not, the digest of every region is that of the members gathered
there, and is found exactly where the flat record has a node; and the digest that a leaf keeps is the
fold over its names in the order in which they stand, which is that of the record. -/
theorem digest_of_run (g : Geometry) (operations : List Operation) :
    let t := (empty g).run operations
    let m := (Flat.empty g).run operations
    (∀ p, t.digest? p = (t.namesIn? p).map NameSet.computeDigest) ∧
      (∀ p, t.digest? p =
        if p ∈ m.nodes then some (Digest.ofNames (m.namesIn p)) else none) ∧
      ∀ p, t.isLeaf p = true → ∀ node ∈ t.lookup? p,
        t.digest? p = some node.2.ownNames.digest ∧
          node.2.ownNames.digest = Digest.ofNames node.2.ownNames.names ∧
          node.2.ownNames.names = m.names p ∧ t.namesIn? p = some node.2.ownNames := by
  intro t m
  have h : Shows m t := (Shows.empty g).run operations
  refine ⟨digest?_eq h.wellFormed, fun p => ?_, ?_⟩
  · rw [digest?_eq h.wellFormed, h.namesIn?_eq]
    split <;> rfl
  · rintro p hleaf ⟨k, node⟩ hlookup
    obtain ⟨hgathered, hfresh⟩ := namesIn?_of_lookup? h.wellFormed hleaf hlookup
    refine ⟨?_, hfresh.2, ?_, hgathered⟩
    · rw [digest?_leaf hleaf, hlookup, ← (contentAt_leaf hleaf hlookup).2]
      rfl
    · rw [h.names, (contentAt_leaf hleaf hlookup).2]

/-- A player that leaves a leaf and comes back stands last, and the digest there takes notice; nobody
is added to an inner region, where a player of two leaves counts once. -/
theorem digest_of_run_back_again :
    let alice : EntityName := ⟨"/hub", "alice"⟩
    let bob : EntityName := ⟨"/hub", "bob"⟩
    let t := (empty ⟨2, 8⟩).run [.addName ⟨[2, 4]⟩ bob, .addName ⟨[2, 4]⟩ alice,
      .removeName ⟨[2, 4]⟩ bob, .addName ⟨[2]⟩ ⟨"/hub", "carol"⟩, .addName ⟨[2, 5]⟩ alice,
      .addName ⟨[2, 4]⟩ bob, .track ⟨[3]⟩]
    t.digest? ⟨[2, 4]⟩ = some (Digest.ofNames [alice, bob]) ∧
      t.digest? ⟨[2]⟩ = some (Digest.ofNames [alice, bob]) ∧
      t.digest? ⟨[3]⟩ = some (Digest.ofNames []) ∧ t.digest? ⟨[4]⟩ = none ∧
      Digest.ofNames [alice, bob] ≠ Digest.ofNames [bob, alice] := by
  intro alice bob t
  obtain ⟨hgathered, -, hkept⟩ := digest_of_run ⟨2, 8⟩ [.addName ⟨[2, 4]⟩ bob,
    .addName ⟨[2, 4]⟩ alice, .removeName ⟨[2, 4]⟩ bob, .addName ⟨[2]⟩ ⟨"/hub", "carol"⟩,
    .addName ⟨[2, 5]⟩ alice, .addName ⟨[2, 4]⟩ bob, .track ⟨[3]⟩]
  have hnames : ∀ p names, (t.namesIn? p).map (·.names) = some names →
      t.digest? p = some (Digest.ofNames names) := by
    intro p names hp
    obtain ⟨s, hs, rfl⟩ := Option.map_eq_some_iff.1 hp
    rw [hgathered, hs]
    rfl
  obtain ⟨node, hnode⟩ : ∃ node, t.lookup? ⟨[2, 4]⟩ = some node :=
    Option.isSome_iff_exists.1 (by decide)
  obtain ⟨hdigest, hfold, -, hsame⟩ := hkept ⟨[2, 4]⟩ (by decide) node hnode
  refine ⟨?_, hnames _ _ (by decide), hnames _ _ (by decide), ?_, by decide⟩
  · have hstanding : t.namesIn? ⟨[2, 4]⟩ = some ⟨[alice, bob], Digest.ofNames [alice, bob]⟩ := by
      decide
    rw [hdigest, hfold, Option.some.inj (hsame.symm.trans hstanding)]
  · rw [hgathered, show t.namesIn? ⟨[4]⟩ = none by decide]
    rfl

end RegionSync.Octree
