import Mathlib.Data.List.Infix
import RegionSync.Proofs.Region.Octree

/-!
Operations on an octree that is held in place. Each is checked and then carried out node by node, and a
refusal does not take back what has been changed by then. It need not: every check comes before the
first change, so what is in place afterwards is the octree that the operation gives, or the one that
was there before.
-/

namespace RegionSync.Octree

variable {p : RegionPath} {e : EntityName}

/-- A computation on an octree held in place. An error leaves there what has been put there by then. -/
abbrev InPlace (α : Type) := EStateM RegionError Octree α

/-- The node of a region is changed in place. -/
def update (p : RegionPath) (f : {m : Nat} → Octant m → Octant m) : InPlace Unit :=
  modify fun t => t.alter p f

/-- The nodes on the way to a region are created one after the other, the root first. -/
def insertInPlace (p : RegionPath) : InPlace Unit := do
  let depth := (← get).geometry.depth
  if depth < p.depth then throw (.tooDeep p.depth depth)
  p.digits.inits.forM fun digits => update ⟨digits⟩ id

def trackInPlace (p : RegionPath) : InPlace Unit := do
  insertInPlace p
  update p (Octant.mark true)

/-- The leaf is created, the player is put in it, and then the digest is brought up to date. -/
def addNameInPlace (p : RegionPath) (e : EntityName) : InPlace Unit := do
  if !(← get).isLeaf p then throw (.invalidPath s!"{p} is not a leaf")
  insertInPlace p
  update p (Octant.mapNames fun s => s.insert e)
  update p (Octant.mapNames fun s => s.refresh)

/-- The octree that an operation gives is put in place. One that is refused leaves what is there. -/
def settle (t : Octree) : Except RegionError Octree → EStateM.Result RegionError Octree Unit
  | .ok t' => .ok () t'
  | .error reason => .error reason t

theorem alter_alter (t : Octree) (p : RegionPath) (f g : {m : Nat} → Octant m → Octant m) :
    (t.alter p g).alter p f = t.alter p fun x => f (g x) :=
  congrArg (Octree.mk t.geometry) (Octant.alter_alter f g t.top p.digits)

theorem alter_of_contains (t : Octree) {p q : RegionPath} (h : q.contains p = true)
    (f : {m : Nat} → Octant m → Octant m) : (t.alter q id).alter p f = t.alter p f :=
  congrArg (Octree.mk t.geometry)
    (Octant.alter_of_isPrefix f t.top (List.isPrefixOf_iff_prefix.1 h))

/-- The nodes on the way to a region, created in turn, are those that one update at its end creates. -/
theorem run_forM_update (t : Octree) {paths : List (List OctantIndex)}
    (h : ∀ q ∈ paths, q <+: p.digits) :
    ((paths ++ [p.digits]).forM fun digits => update ⟨digits⟩ id).run t = .ok () (t.alter p id) := by
  induction paths generalizing t with
  | nil => rfl
  | cons q paths ih =>
      have hq := List.isPrefixOf_iff_prefix.2 (h q List.mem_cons_self)
      have hrest := ih (t.alter ⟨q⟩ id) fun x hx => h x (List.mem_cons_of_mem _ hx)
      rw [alter_of_contains t hq] at hrest
      exact hrest

theorem exists_inits_eq (path : List OctantIndex) :
    ∃ paths, path.inits = paths ++ [path] ∧ ∀ q ∈ paths, q <+: path := by
  rcases List.eq_nil_or_concat path with rfl | ⟨front, i, rfl⟩
  · exact ⟨[], rfl, by simp⟩
  · refine ⟨front.inits, by simp [List.inits_append], fun q hq => ?_⟩
    exact ((List.mem_inits _ _).1 hq).trans (List.concat_eq_append ▸ List.prefix_append _ _)

theorem run_insertInPlace (t : Octree) (p : RegionPath) :
    (insertInPlace p).run t = settle t (t.insert p) := by
  obtain ⟨paths, hpaths, hprefix⟩ := exists_inits_eq p.digits
  have hway := run_forM_update t hprefix
  rw [← hpaths] at hway
  rw [insertInPlace, Octree.insert, alterWithin]
  by_cases hlt : t.geometry.depth < p.depth
  · simp [hlt, settle]
  · simpa [hlt, settle] using hway

/-- What follows the creation of a node is done if there is one. -/
theorem run_insertInPlace_bind (t : Octree) (p : RegionPath) {rest : InPlace Unit}
    {f : {m : Nat} → Octant m → Octant m}
    (hrest : rest.run (t.alter p id) = .ok () (t.alter p f)) :
    (insertInPlace p >>= fun _ => rest).run t = settle t (t.alterWithin p f) := by
  rw [EStateM.run_bind, run_insertInPlace, Octree.insert, alterWithin, alterWithin]
  by_cases hlt : t.geometry.depth < p.depth
  · rw [if_pos hlt, if_pos hlt]
    rfl
  · rw [if_neg hlt, if_neg hlt]
    exact hrest

theorem run_trackInPlace (t : Octree) (p : RegionPath) :
    (trackInPlace p).run t = settle t (t.track p) := by
  refine run_insertInPlace_bind t p ?_
  rw [update, EStateM.run_modify, alter_alter]
  rfl

theorem run_addNameInPlace (t : Octree) (p : RegionPath) (e : EntityName) :
    (addNameInPlace p e).run t = settle t (t.addName p e) := by
  rw [addName]
  by_cases hleaf : t.isLeaf p = true
  · have hchecked : (addNameInPlace p e).run t = (insertInPlace p >>= fun _ =>
        update p (Octant.mapNames fun s => s.insert e) >>= fun _ =>
          update p (Octant.mapNames fun s => s.refresh)).run t := by
      simp [addNameInPlace, hleaf]
    have hnames : (fun {m : Nat} (x : Octant m) => Octant.mapNames (fun s => s.refresh)
        (Octant.mapNames (fun s => s.insert e) x)) =
          fun {m : Nat} => Octant.mapNames fun s => (s.insert e).refresh := by
      funext m x
      cases m <;> rfl
    rw [if_pos hleaf, hchecked]
    refine run_insertInPlace_bind t p ?_
    rw [update, update, EStateM.run_bind, EStateM.run_modify]
    dsimp only
    rw [EStateM.run_modify, alter_alter, alter_alter]
    dsimp only [id]
    rw [hnames]
  · simp [addNameInPlace, hleaf, settle]

end RegionSync.Octree
