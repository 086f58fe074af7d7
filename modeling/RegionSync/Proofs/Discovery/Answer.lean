import RegionSync.Discovery.Exchange
import RegionSync.Proofs.Discovery.Listing
import RegionSync.Proofs.Region.Flat

/-!
What an octree answers about regions, and what its answers are read as. Only a line without names and
digits is lost on the way, and no leaf has one.
-/

namespace RegionSync

/-- The name has been made of an owner and an id. -/
def EntityName.Made (e : EntityName) : Prop :=
  ∃ owner id, EntityName.make owner id = .ok e

theorem EntityName.Made.valid {e : EntityName} (h : e.Made) : e.Valid := by
  obtain ⟨owner, id, hmake⟩ := h
  exact valid_of_make hmake

namespace Discovery

theorem isSome_namesIn?_of_isTracked {t : Octree} {p : RegionPath} (htracked : t.isTracked p = true) :
    (t.namesIn? p).isSome = true := by
  rw [Octree.namesIn?, Option.isSome_map]
  exact Octree.isSome_lookup?_of_isTracked htracked

/-- A tracked region has a digest. -/
theorem claim_of_isTracked {t : Octree} {p : RegionPath} (htracked : t.isTracked p = true) :
    t.digest? p = some (claim t p) := by
  have hdigest : (t.digest? p).isSome = true := by
    unfold Octree.digest?
    split
    · rw [Option.isSome_map]
      exact Octree.isSome_lookup?_of_isTracked htracked
    · rw [Option.isSome_map]
      exact isSome_namesIn?_of_isTracked htracked
  obtain ⟨digest, hdigest⟩ := Option.isSome_iff_exists.1 hdigest
  rw [claim, hdigest, Option.getD_some]

theorem differs_iff {t : Octree} {p : RegionPath} {claimed : UInt32} :
    differs t p claimed = true ↔ t.isTracked p = true ∧ t.digest? p ≠ some claimed := by
  rw [differs, Bool.and_eq_true, bne_iff_ne]
  refine and_congr_right fun htracked => ?_
  rw [claim_of_isTracked htracked, ne_eq, ne_eq, Option.some.injEq]

/-- There is something to say if a claimed region is tracked and has another digest. -/
theorem answer_ne_nil_iff {t : Octree} {q : Query} : answer t q ≠ [] ↔
    ∃ c ∈ q.claims, t.isTracked c.1 = true ∧ t.digest? c.1 ≠ some c.2 := by
  constructor
  · intro h
    obtain ⟨l, hl⟩ := List.exists_mem_of_ne_nil _ h
    obtain ⟨c, hc, hsome⟩ := List.mem_filterMap.1 hl
    dsimp only at hsome
    split at hsome
    · next hdiffers => exact ⟨c, hc, differs_iff.1 hdiffers⟩
    · cases hsome
  · rintro ⟨c, hc, htracked, hdigest⟩
    obtain ⟨names, hnames⟩ := Option.isSome_iff_exists.1 (isSome_namesIn?_of_isTracked htracked)
    refine List.ne_nil_of_mem (a := ⟨c.1, names.names⟩) (List.mem_filterMap.2 ⟨c, hc, ?_⟩)
    dsimp only
    rw [if_pos (differs_iff.2 ⟨htracked, hdigest⟩), listing?, hnames, Option.map_some]

/-- The answer about one tracked leaf: its members, unless the digest claimed is its own. -/
theorem answer_leaf {t : Octree} {p : RegionPath} (ht : t.WellFormed) (hleaf : t.isLeaf p = true)
    (htracked : t.isTracked p = true) (claimed : UInt32) : answer t ⟨p, .whole claimed⟩ =
      if claim t p = claimed then [] else [⟨p, (t.contentAt p).names.names⟩] := by
  have hlisting : listing? t p = some ⟨p, (t.contentAt p).names.names⟩ := by
    have hnode := Octree.isSome_lookup?_of_isTracked htracked
    rw [listing?, Octree.namesIn?_leaf ht hleaf]
    cases hlookup : t.lookup? p with
    | none => simp [hlookup] at hnode
    | some found => rfl
  have hdiffers : differs t p claimed = (claim t p != claimed) := by
    rw [differs, htracked, Bool.true_and]
  have hanswer : answer t ⟨p, .whole claimed⟩ =
      [(p, claimed)].filterMap fun _ => if differs t p claimed then listing? t p else none := rfl
  rw [hanswer, hdiffers, hlisting]
  by_cases hsame : claim t p = claimed
  · simp [hsame]
  · simp [hsame]

/-- Only members of leaves are listed. -/
theorem hasName_of_mem_answer {t : Octree} (ht : t.WellFormed) {q : Query} {l : Listing}
    (hl : l ∈ answer t q) (he : e ∈ l.names) : ∃ p, t.hasName p e = true := by
  obtain ⟨⟨region, claimed⟩, -, hsome⟩ := List.mem_filterMap.1 hl
  dsimp only at hsome
  split at hsome
  · obtain ⟨s, hs, rfl⟩ := Option.map_eq_some_iff.1 hsome
    exact Octree.exists_hasName_of_mem_namesIn? ht hs he
  · cases hsome

/-- Listings of made names are read back in their order, all but those of the root without names;
so what an octree of made names answers about leaves is read back as it is. -/
theorem listings_read_back :
    (∀ listings : List Listing, (∀ l ∈ listings, ∀ e ∈ l.names, e.Made) →
      Listing.ofBody (Listing.body listings) =
        .ok (listings.filter fun l => !(l.region.isRoot && l.names.isEmpty))) ∧
    (∀ listings : List Listing, (∀ l ∈ listings, ∀ e ∈ l.names, e.Made) →
      (∀ l ∈ listings, l.region.isRoot = false ∨ l.names ≠ []) →
        Listing.ofBody (Listing.body listings) = .ok listings) ∧
    ∀ (g : Geometry) (operations : List Octree.Operation) (q : Query), 0 < g.depth →
      (∀ p e, Octree.Operation.addName p e ∈ operations → e.Made) →
      let t := (Octree.empty g).run operations
      (∀ l ∈ answer t q, t.isLeaf l.region = true) →
        Listing.ofBody (Listing.body (answer t q)) = .ok (answer t q) := by
  have hread : ∀ listings : List Listing, (∀ l ∈ listings, ∀ e ∈ l.names, e.Made) →
      Listing.ofBody (Listing.body listings) = .ok (Listing.speaking listings) :=
    fun listings hmade => Listing.ofBody_body fun l hl e he => (hmade l hl e he).valid
  refine ⟨hread, fun listings hmade hall => ?_, ?_⟩
  · rw [hread listings hmade, Listing.speaking_eq_self hall]
  · intro g operations q hdepth hmade t hleaves
    have hshows := (Octree.Shows.empty g).run operations
    rw [hread, Listing.speaking_eq_self]
    · intro l hl
      refine Or.inl (Octree.isRoot_of_isLeaf ?_ (hleaves l hl))
      rwa [Octree.geometry_run]
    · intro l hl e he
      obtain ⟨p, hp⟩ := hasName_of_mem_answer hshows.wellFormed hl he
      obtain ⟨p', hadded⟩ := Octree.exists_addName_of_hasName hp
      exact hmade p' e hadded

/-- The line of the root is lost only if nobody is in it, and a region may be listed twice. What two
members of a leaf are answered with is read back. -/
theorem listings_read_back_hub :
    let alice : EntityName := ⟨"/hub", "alice"⟩
    let bob : EntityName := ⟨"/hub/eu", "bób"⟩
    let leaf : RegionPath := ⟨[2, 4]⟩
    let t := (Octree.empty ⟨2, 8⟩).run [.track leaf, .addName leaf bob, .addName leaf alice]
    Listing.ofBody (Listing.body [⟨.root, []⟩, ⟨.root, [bob]⟩, ⟨leaf, []⟩, ⟨leaf, [alice, bob]⟩]) =
        .ok [⟨.root, [bob]⟩, ⟨leaf, []⟩, ⟨leaf, [alice, bob]⟩] ∧
      answer t ⟨leaf, .whole 0⟩ = [⟨leaf, [bob, alice]⟩] ∧
      Listing.ofBody (Listing.body (answer t ⟨leaf, .whole 0⟩)) = .ok [⟨leaf, [bob, alice]⟩] := by
  intro alice bob leaf t
  have halice : alice.Made := ⟨"/hub", "alice", by decide⟩
  have hbob : bob.Made := ⟨"/hub/eu", "bób", by decide⟩
  have hanswer : answer t ⟨leaf, .whole 0⟩ = [⟨leaf, [bob, alice]⟩] := by decide
  obtain ⟨hread, -, hleaves⟩ := listings_read_back
  refine ⟨hread _ ?_, hanswer, ?_⟩
  · simp [halice, hbob]
  · rw [← hanswer]
    refine hleaves ⟨2, 8⟩ _ _ (by decide) ?_ ?_
    · intro p e hadded
      have hname : p = leaf ∧ e = bob ∨ p = leaf ∧ e = alice := by simpa using hadded
      rcases hname with ⟨-, rfl⟩ | ⟨-, rfl⟩
      · exact hbob
      · exact halice
    · intro l hl
      rw [show answer _ _ = _ from hanswer, List.mem_singleton] at hl
      subst hl
      decide

end Discovery

end RegionSync
