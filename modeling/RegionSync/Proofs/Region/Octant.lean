import RegionSync.Region.Octant

/-!
Octants seen through their paths. A path leads to what a node holds itself, its members and its
mark; an update along a path changes that at its end and nowhere else. Children stand in order of
index, so the listing of a whole octant, path by path, agrees with what the paths lead to.
-/

namespace RegionSync

namespace NameSet

/-- Nobody is in the set twice, and the digest is that of the members. -/
def Fresh (s : NameSet) : Prop :=
  s.names.Nodup ∧ s.digest = s.computeDigest

theorem fresh_empty : Fresh empty :=
  ⟨List.nodup_nil, rfl⟩

theorem names_insert_of_not_mem {s : NameSet} {e : EntityName} (h : e ∉ s.names) :
    (s.insert e).names = s.names ++ [e] := by
  rw [insert, if_neg (by simpa [contains] using h)]

theorem fresh_insert {s : NameSet} (h : s.names.Nodup) (e : EntityName) :
    (s.insert e).refresh.Fresh := by
  refine ⟨?_, rfl⟩
  show (s.insert e).names.Nodup
  by_cases hmem : e ∈ s.names
  · rw [names_insert_of_contains (List.contains_iff_mem.2 hmem)]
    exact h
  · rw [names_insert_of_not_mem hmem]
    simpa [List.nodup_append, h] using fun a ha => ne_of_mem_of_not_mem ha hmem

theorem fresh_remove {s : NameSet} (h : s.names.Nodup) (e : EntityName) :
    (s.remove e).refresh.Fresh :=
  ⟨h.erase e, rfl⟩

theorem mem_remove {s : NameSet} (h : s.names.Nodup) {e f : EntityName} :
    f ∈ (s.remove e).names ↔ f ∈ s.names ∧ f ≠ e := by
  rw [show (s.remove e).names = s.names.erase e from rfl, h.mem_erase_iff, and_comm]

theorem mem_insertAll {s : NameSet} {es : List EntityName} {f : EntityName} :
    f ∈ (s.insertAll es).names ↔ f ∈ s.names ∨ f ∈ es := by
  induction es generalizing s with
  | nil => simp [insertAll]
  | cons e es ih =>
      rw [show s.insertAll (e :: es) = (s.insert e).insertAll es from rfl, ih, mem_insert, or_assoc,
        List.mem_cons]

theorem mem_ofList {es : List EntityName} {f : EntityName} : f ∈ (ofList es).names ↔ f ∈ es :=
  mem_insertAll.trans (or_iff_right List.not_mem_nil)

theorem names_insertAll_eq (s : NameSet) (es : List EntityName) :
    (s.insertAll es).names = s.names ++ (es.filter fun e => !s.names.contains e).eraseDups := by
  induction es generalizing s with
  | nil => simp [insertAll]
  | cons e es ih =>
      rw [show s.insertAll (e :: es) = (s.insert e).insertAll es from rfl, ih]
      by_cases he : e ∈ s.names
      · have hcontains : s.contains e = true := List.contains_iff_mem.2 he
        rw [names_insert_of_contains hcontains, List.filter_cons_of_neg (by simp [he])]
      · rw [List.filter_cons_of_pos (by simp [he]), List.eraseDups_cons, names_insert_of_not_mem he,
          List.append_assoc, List.singleton_append, List.filter_filter]
        congr 3
        apply List.filter_congr
        intro f _
        rw [Bool.eq_iff_iff]
        simp [and_comm]

/-- The set of a list has each of its names once, where it comes first. -/
theorem names_ofList (es : List EntityName) : (ofList es).names = es.eraseDups := by
  have hnames : (ofList es).names = _ := names_insertAll_eq empty es
  rw [hnames, empty, List.nil_append, List.filter_eq_self.2]
  intro e _
  rfl

theorem names_insertAll (s : NameSet) {es : List EntityName} (h : (s.names ++ es).Nodup) :
    (s.insertAll es).names = s.names ++ es := by
  induction es generalizing s with
  | nil => simp [insertAll]
  | cons e es ih =>
      have hinsert : (s.insert e).names = s.names ++ [e] := by
        apply names_insert_of_not_mem
        intro hmem
        exact (List.nodup_append.1 h).2.2 e hmem e List.mem_cons_self rfl
      have hnodup : ((s.insert e).names ++ es).Nodup := by
        rw [hinsert, List.append_assoc]
        exact h
      rw [show s.insertAll (e :: es) = (s.insert e).insertAll es from rfl, ih _ hnodup, hinsert,
        List.append_assoc]
      rfl

theorem ofList_names {s : NameSet} (h : s.Fresh) : ofList s.names = s := by
  have hnodup : (empty.names ++ s.names).Nodup := h.1
  have hnames : (ofList s.names).names = s.names := names_insertAll empty hnodup
  obtain ⟨names, digest⟩ := s
  rw [show digest = Digest.ofNames names from h.2]
  exact congrArg (fun es => (⟨es, Digest.ofNames es⟩ : NameSet)) hnames

end NameSet

namespace Branch

variable {α : Type}

theorem mem_of_child? {i : OctantIndex} {c : α} {cs : List (OctantIndex × α)}
    (h : child? i cs = some c) : (i, c) ∈ cs := by
  induction cs with
  | nil => simp [child?] at h
  | cons head rest ih =>
      simp only [child?] at h
      split at h
      · next heq =>
          cases h
          subst heq
          exact List.mem_cons_self
      · exact List.mem_cons_of_mem _ (ih h)

/-- Among children with different indices each is the one at its index. -/
theorem child?_eq_some_iff {i : OctantIndex} {c : α} {cs : List (OctantIndex × α)}
    (h : (cs.map (·.1)).Nodup) : child? i cs = some c ↔ (i, c) ∈ cs := by
  refine ⟨mem_of_child?, fun hmem => ?_⟩
  induction cs with
  | nil => simp at hmem
  | cons head rest ih =>
      obtain ⟨hhead, hrest⟩ := List.nodup_cons.1 h
      simp only [child?]
      rcases List.mem_cons.1 hmem with rfl | hmem
      · rw [if_pos rfl]
      · have hne : i ≠ head.1 := by
          rintro rfl
          exact hhead (List.mem_map.2 ⟨_, hmem, rfl⟩)
        rw [if_neg hne]
        exact ih hrest hmem

theorem mem_put {i : OctantIndex} {c : α} {cs : List (OctantIndex × α)} {x : OctantIndex × α}
    (h : x ∈ put i c cs) : x = (i, c) ∨ x ∈ cs := by
  induction cs with
  | nil => simpa [put] using h
  | cons head rest ih =>
      simp only [put] at h
      split at h
      · simpa using h
      · split at h
        · rcases List.mem_cons.1 h with h | h
          · exact Or.inl h
          · exact Or.inr (List.mem_cons_of_mem _ h)
        · rcases List.mem_cons.1 h with h | h
          · exact Or.inr (h ▸ List.mem_cons_self)
          · exact (ih h).imp_right (List.mem_cons_of_mem _)

theorem put_put (i : OctantIndex) (c d : α) (cs : List (OctantIndex × α)) :
    put i c (put i d cs) = put i c cs := by
  induction cs with
  | nil => simp [put]
  | cons head rest ih =>
      by_cases hlt : i < head.1
      · simp [put, hlt]
      · by_cases heq : i = head.1
        · simp [put, heq]
        · simp [put, hlt, heq, ih]

theorem pairwise_put {i : OctantIndex} {c : α} {cs : List (OctantIndex × α)}
    (h : cs.Pairwise (·.1 < ·.1)) : (put i c cs).Pairwise (·.1 < ·.1) := by
  induction cs with
  | nil => simp [put]
  | cons head rest ih =>
      obtain ⟨hhead, hrest⟩ := List.pairwise_cons.1 h
      simp only [put]
      split
      · next hlt =>
          refine List.pairwise_cons.2 ⟨fun x hx => ?_, h⟩
          rcases List.mem_cons.1 hx with rfl | hx
          · exact hlt
          · exact Fin.lt_trans hlt (hhead x hx)
      · split
        · next heq =>
            subst heq
            exact List.pairwise_cons.2 ⟨hhead, hrest⟩
        · next hlt hne =>
            refine List.pairwise_cons.2 ⟨fun x hx => ?_, ih hrest⟩
            rcases mem_put hx with rfl | hx
            · exact Nat.lt_of_le_of_ne (Nat.not_lt.1 hlt) fun heq => hne (Fin.ext heq.symm)
            · exact hhead x hx

end Branch

namespace Octant

variable {n : Nat}

structure Content where
  names : NameSet
  tracked : Bool

def Content.none : Content := ⟨.empty, false⟩

def content (node : Octant n) : Content :=
  ⟨node.ownNames, node.tracked⟩

def contentAt (node : Octant n) (path : List OctantIndex) : Content :=
  match node.lookup? path with
  | some ⟨_, x⟩ => x.content
  | none => .none

theorem contentAt_nil (node : Octant n) : contentAt node [] = node.content := by
  cases n <;> rfl

theorem contentAt_zero (leaf : Octant 0) (i : OctantIndex) (path : List OctantIndex) :
    contentAt leaf (i :: path) = .none := rfl

theorem content_empty : (empty n).content = .none := by
  cases n <;> rfl

theorem contentAt_empty (path : List OctantIndex) : contentAt (empty n) path = .none := by
  cases path with
  | nil => rw [contentAt_nil, content_empty]
  | cons i path => cases n <;> rfl

theorem contentAt_cons (branch : Octant (n + 1)) (i : OctantIndex) (path : List OctantIndex) :
    contentAt branch (i :: path) =
      contentAt ((Branch.child? i (Branch.children branch)).getD (empty n)) path := by
  cases h : Branch.child? i (Branch.children branch) with
  | none =>
      rw [Option.getD_none, contentAt_empty]
      simp [contentAt, lookup?, h]
  | some child => simp [contentAt, lookup?, h]

theorem contentAt_of_lookup?_eq_none {node : Octant n} {path : List OctantIndex}
    (h : node.lookup? path = none) : contentAt node path = .none := by
  rw [contentAt, h]

theorem lookup?_eq_none_of_lt {node : Octant n} {path : List OctantIndex} (h : n < path.length) :
    node.lookup? path = none := by
  induction path generalizing n with
  | nil => simp at h
  | cons i path ih =>
      cases n with
      | zero => rfl
      | succ n =>
          simp only [lookup?]
          split
          · rfl
          · exact ih (by simpa using h)

/-- A path leads as many levels down as it has digits. -/
theorem level_of_lookup? {node : Octant n} {path : List OctantIndex} {m : Nat} {x : Octant m}
    (h : node.lookup? path = some ⟨m, x⟩) : m + path.length = n := by
  induction path generalizing n with
  | nil =>
      have hself : node.lookup? [] = some ⟨n, node⟩ := by cases n <;> rfl
      rw [hself] at h
      cases h
      rfl
  | cons i path ih =>
      cases n with
      | zero => cases h
      | succ n =>
          simp only [lookup?] at h
          split at h
          · cases h
          · rw [List.length_cons, ← ih h, Nat.add_assoc]

/-- There are nodes all the way to a node. -/
theorem isSome_lookup?_of_isPrefix {node : Octant n} {p q : List OctantIndex} (hq : q <+: p)
    (h : (node.lookup? p).isSome = true) : (node.lookup? q).isSome = true := by
  induction q generalizing n p with
  | nil => cases n <;> rfl
  | cons i q ih =>
      obtain ⟨rest, rfl⟩ := hq
      cases n with
      | zero => cases h
      | succ n =>
          simp only [List.cons_append, lookup?] at h ⊢
          cases hchild : Branch.child? i (Branch.children node) with
          | none => simp [hchild] at h
          | some child =>
              rw [hchild] at h
              exact ih (List.prefix_append q rest) h

theorem lookup?_nil (node : Octant n) : node.lookup? [] = some ⟨n, node⟩ := by
  cases n <;> rfl

theorem lookup?_cons (branch : Octant (n + 1)) (i : OctantIndex) (path : List OctantIndex) :
    branch.lookup? (i :: path) =
      (Branch.child? i (Branch.children branch)).bind fun child => child.lookup? path := by
  rw [lookup?]
  cases Branch.child? i (Branch.children branch) <;> rfl

theorem lookup?_empty (i : OctantIndex) (path : List OctantIndex) :
    (empty n).lookup? (i :: path) = none := by
  cases n <;> rfl

/-- Where a path leads to from a node on the way. -/
theorem lookup?_append {node : Octant n} {p : List OctantIndex} {m : Nat} {x : Octant m}
    (h : node.lookup? p = some ⟨m, x⟩) (q : List OctantIndex) :
    node.lookup? (p ++ q) = x.lookup? q := by
  induction p generalizing n with
  | nil =>
      rw [lookup?_nil] at h
      cases h
      rfl
  | cons i p ih =>
      cases n with
      | zero => cases h
      | succ n =>
          rw [lookup?_cons, Option.bind_eq_some_iff] at h
          obtain ⟨child, hchild, h⟩ := h
          rw [List.cons_append, lookup?_cons, hchild]
          exact ih h

theorem contentAt_append {node : Octant n} {p : List OctantIndex} {m : Nat} {x : Octant m}
    (h : node.lookup? p = some ⟨m, x⟩) (q : List OctantIndex) :
    contentAt node (p ++ q) = contentAt x q := by
  rw [contentAt, contentAt, lookup?_append h]

/-- The change leaves the children of inner nodes alone. -/
def KeepsChildren (f : {m : Nat} → Octant m → Octant m) : Prop :=
  ∀ {m : Nat} (branch : Octant (m + 1)), Branch.children (f branch) = Branch.children branch

theorem keepsChildren_mark (flag : Bool) : KeepsChildren (mark flag) := fun _ => rfl

theorem keepsChildren_mapNames (f : NameSet → NameSet) : KeepsChildren (mapNames f) := fun _ => rfl

theorem alter_nil (f : {m : Nat} → Octant m → Octant m) (node : Octant n) :
    alter f node [] = f node := by
  cases n <;> rfl

theorem alter_cons (f : {m : Nat} → Octant m → Octant m) (branch : Octant (n + 1)) (i : OctantIndex)
    (p : List OctantIndex) : alter f branch (i :: p) =
      Branch.mk (Branch.put i (alter f ((Branch.child? i (Branch.children branch)).getD (empty n)) p)
        (Branch.children branch)) (Branch.tracked branch) :=
  rfl

/-- Two updates one after the other at the end of a path are one. -/
theorem alter_alter (f g : {m : Nat} → Octant m → Octant m) (node : Octant n)
    (p : List OctantIndex) : alter f (alter g node p) p = alter (fun x => f (g x)) node p := by
  induction p generalizing n with
  | nil => rw [alter_nil, alter_nil, alter_nil]
  | cons i p ih =>
      cases n with
      | zero => rfl
      | succ n =>
          rw [alter_cons, alter_cons, alter_cons, Branch.children, Branch.child?_put, if_pos rfl,
            Option.getD_some, ih, Branch.put_put]

/-- An update along a path goes through the nodes on the way, be they there already or not. -/
theorem alter_of_isPrefix (f : {m : Nat} → Octant m → Octant m) (node : Octant n)
    {p q : List OctantIndex} (hq : q <+: p) : alter f (alter id node q) p = alter f node p := by
  induction q generalizing n p with
  | nil => rw [alter_nil, id]
  | cons i q ih =>
      obtain ⟨rest, rfl, hrest⟩ := List.cons_prefix_iff.1 hq
      cases n with
      | zero => rfl
      | succ n =>
          rw [alter_cons, alter_cons, alter_cons, Branch.children, Branch.child?_put, if_pos rfl,
            Option.getD_some, ih _ hrest, Branch.put_put]

/-- An update along a path changes what stands at its end, and nothing else. -/
theorem contentAt_alter {f : {m : Nat} → Octant m → Octant m} (hf : KeepsChildren f)
    {u : Content → Content} {p : List OctantIndex}
    (hu : ∀ {m : Nat} (x : Octant m), m + p.length = n → (f x).content = u x.content)
    (hp : p.length ≤ n) (node : Octant n) (q : List OctantIndex) :
    contentAt (alter f node p) q = if q = p then u (contentAt node p) else contentAt node q := by
  induction p generalizing n q with
  | nil =>
      rw [alter_nil]
      cases q with
      | nil => rw [if_pos rfl, contentAt_nil, contentAt_nil, hu node (by simp)]
      | cons i q =>
          rw [if_neg (by simp)]
          cases n with
          | zero => rfl
          | succ n => rw [contentAt_cons, contentAt_cons, hf node]
  | cons i p ih =>
      cases n with
      | zero => simp at hp
      | succ n =>
          have hchild := fun node => ih (n := n) (fun x hx => hu x (by simp; omega))
            (by simpa using hp) node
          cases q with
          | nil => rw [if_neg (by simp)]; rfl
          | cons j q =>
              rw [contentAt_cons, contentAt_cons, contentAt_cons]
              simp only [alter, Branch.child?_put, List.cons.injEq]
              by_cases hij : j = i
              · subst hij
                simp only [↓reduceIte, Option.getD_some, true_and, hchild]
              · simp only [hij, ↓reduceIte, false_and]

/-- An update along a path creates the nodes above its end, and no others. -/
theorem isSome_lookup?_alter {f : {m : Nat} → Octant m → Octant m} (hf : KeepsChildren f)
    {p : List OctantIndex} (hp : p.length ≤ n) (node : Octant n) (q : List OctantIndex) :
    ((alter f node p).lookup? q).isSome ↔ (node.lookup? q).isSome ∨ q <+: p := by
  induction p generalizing n q with
  | nil =>
      rw [alter_nil, List.prefix_nil]
      cases q with
      | nil => cases n <;> simp [lookup?]
      | cons i q =>
          cases n with
          | zero => simp [lookup?]
          | succ n => simp only [lookup?, hf node, reduceCtorEq, or_false]
  | cons i p ih =>
      cases n with
      | zero => simp at hp
      | succ n =>
          cases q with
          | nil => simp [lookup?]
          | cons j q =>
              rw [List.cons_prefix_cons]
              simp only [alter, lookup?, Branch.child?_put]
              by_cases hij : j = i
              · subst hij
                simp only [↓reduceIte, true_and]
                rw [ih (by simpa using hp)]
                cases hchild : Branch.child? j (Branch.children node) with
                | none =>
                    have hnone : ((empty n).lookup? q).isSome → q = [] := by
                      cases q <;> simp [lookup?_empty]
                    simp only [Option.getD_none, Option.isSome_none, Bool.false_eq_true, false_or]
                    refine ⟨fun h => h.elim (fun h => ?_) id, Or.inr⟩
                    rw [hnone h]
                    exact List.nil_prefix
                | some child => simp only [Option.getD_some]
              · simp only [hij, ↓reduceIte, false_and, or_false]

/-- Children stand in order of index, all the way down. -/
def Ordered : {n : Nat} → Octant n → Prop
  | 0, _ => True
  | _ + 1, branch =>
    (Branch.children branch).Pairwise (·.1 < ·.1) ∧
      ∀ c ∈ Branch.children branch, Ordered c.2

theorem ordered_empty : Ordered (empty n) := by
  cases n with
  | zero => trivial
  | succ n => exact ⟨List.Pairwise.nil, by simp [empty]⟩

theorem ordered_alter {f : {m : Nat} → Octant m → Octant m} (hf : KeepsChildren f)
    {node : Octant n} (h : Ordered node) (p : List OctantIndex) : Ordered (alter f node p) := by
  induction p generalizing n with
  | nil =>
      cases n with
      | zero => trivial
      | succ n =>
          show Ordered (f node)
          simpa only [Ordered, hf node] using h
  | cons i p ih =>
      cases n with
      | zero => trivial
      | succ n =>
          refine ⟨Branch.pairwise_put h.1, fun c hc => ?_⟩
          rcases Branch.mem_put hc with rfl | hc
          · apply ih
            cases hchild : Branch.child? i (Branch.children node) with
            | none => exact ordered_empty
            | some child => exact h.2 _ (Branch.mem_of_child? hchild)
          · exact h.2 c hc

theorem Ordered.pairwise_childIndices {node : Octant n} (h : Ordered node) :
    node.childIndices.Pairwise (· < ·) := by
  cases n with
  | zero => exact List.Pairwise.nil
  | succ n => exact List.pairwise_map.2 h.1

theorem ordered_of_lookup? {node : Octant n} (h : Ordered node) {p : List OctantIndex} {m : Nat}
    {x : Octant m} (hx : node.lookup? p = some ⟨m, x⟩) : Ordered x := by
  induction p generalizing n with
  | nil =>
      have hself : node.lookup? [] = some ⟨n, node⟩ := by cases n <;> rfl
      rw [hself] at hx
      cases hx
      exact h
  | cons i p ih =>
      cases n with
      | zero => cases hx
      | succ n =>
          simp only [lookup?] at hx
          split at hx
          · cases hx
          · next child hchild => exact ih (h.2 _ (Branch.mem_of_child? hchild)) hx

/-- Every membership of the whole octant: a path to a leaf and one of its members. -/
def memberships : {n : Nat} → Octant n → List (List OctantIndex × EntityName)
  | 0, leaf => (Leaf.names leaf).names.map fun e => ([], e)
  | _ + 1, branch =>
    (Branch.children branch).flatMap fun (i, child) =>
      (memberships child).map fun (path, e) => (i :: path, e)

theorem flatten_leafNames (node : Octant n) :
    node.leafNames.flatten = (memberships node).map (·.2) := by
  induction n with
  | zero =>
      rw [leafNames, memberships, List.flatten_singleton, List.map_map]
      exact (List.map_id _).symm
  | succ n ih =>
      rw [leafNames, memberships, List.map_flatMap, List.flatMap_def, List.flatten_flatten,
        List.map_map, List.flatMap_def]
      congr 1
      refine List.map_congr_left fun c _ => ?_
      rw [List.map_map]
      exact ih c.2

theorem nodup_indices {branch : Octant (n + 1)} (h : Ordered branch) :
    ((Branch.children branch).map (·.1)).Nodup :=
  List.pairwise_map.2 (h.1.imp fun hlt => Fin.ne_of_lt hlt)

/-- The listing of the whole octant has the members of every path. -/
theorem mem_memberships {node : Octant n} (h : Ordered node) {p : List OctantIndex}
    {e : EntityName} : (p, e) ∈ memberships node ↔ e ∈ (contentAt node p).names.names := by
  induction n generalizing p with
  | zero =>
      cases p with
      | nil =>
          rw [contentAt_nil]
          simp [memberships, content, ownNames]
      | cons i p => simp [memberships, contentAt_zero, Content.none, NameSet.empty]
  | succ n ih =>
      cases p with
      | nil =>
          rw [contentAt_nil]
          simp [memberships, content, ownNames, NameSet.empty]
      | cons i p =>
          rw [contentAt_cons]
          simp only [memberships, List.mem_flatMap, List.mem_map, Prod.exists, Prod.mk.injEq,
            List.cons.injEq]
          constructor
          · rintro ⟨j, child, hchild, q, f, hmem, ⟨rfl, rfl⟩, rfl⟩
            rw [(Branch.child?_eq_some_iff (nodup_indices h)).2 hchild]
            exact (ih (h.2 _ hchild)).1 hmem
          · intro hmem
            cases hchild : Branch.child? i (Branch.children node) with
            | none =>
                rw [hchild, Option.getD_none, contentAt_empty] at hmem
                simp [Content.none, NameSet.empty] at hmem
            | some child =>
                rw [hchild, Option.getD_some] at hmem
                have hin := Branch.mem_of_child? hchild
                exact ⟨i, child, hin, p, e, (ih (h.2 _ hin)).2 hmem, ⟨rfl, rfl⟩, rfl⟩

/-- Where no leaf lists anybody twice, the whole octant lists no membership twice. -/
theorem nodup_memberships {node : Octant n} (h : Ordered node)
    (hnodup : ∀ p, (contentAt node p).names.names.Nodup) : (memberships node).Nodup := by
  induction n with
  | zero =>
      have hnames := hnodup []
      rw [contentAt_nil] at hnames
      refine List.pairwise_map.2 (hnames.imp fun hne heq => hne ?_)
      exact (Prod.mk.injEq .. ▸ heq).2
  | succ n ih =>
      refine List.pairwise_flatMap.2 ⟨fun c hc => ?_, ?_⟩
      · have hchild : ∀ p, contentAt node (c.1 :: p) = contentAt c.2 p := by
          intro p
          rw [contentAt_cons, (Branch.child?_eq_some_iff (nodup_indices h)).2 hc, Option.getD_some]
        refine List.pairwise_map.2 ((ih (h.2 c hc) fun p => hchild p ▸ hnodup (c.1 :: p)).imp ?_)
        intro x y hne heq
        apply hne
        simpa [Prod.ext_iff] using heq
      · refine h.1.imp fun {c d} hlt x hx y hy heq => ?_
        obtain ⟨a, -, rfl⟩ := List.mem_map.1 hx
        obtain ⟨b, -, rfl⟩ := List.mem_map.1 hy
        simp only [Prod.mk.injEq, List.cons.injEq] at heq
        exact Fin.ne_of_lt hlt heq.1.1

end Octant

end RegionSync
