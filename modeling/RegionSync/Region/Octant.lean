import RegionSync.Entity.NameSet
import RegionSync.Region.Path

/-!
Nodes of a sparse octree, by the number of levels below them. Leaves hold a set of names and inner
nodes hold their existing children in order of index; both can be tracked. Every operation walks a
path, so it is defined by recursion on the levels and needs no bound on the tree.
-/

namespace RegionSync

structure Leaf where
  names : NameSet
  tracked : Bool

/-- An inner node whose children are of one kind, in order of index. -/
structure Branch (α : Type) where
  children : List (OctantIndex × α)
  tracked : Bool

/-- A node with this many levels below it. -/
def Octant : Nat → Type
  | 0 => Leaf
  | n + 1 => Branch (Octant n)

namespace Branch

variable {α : Type}

/-- The child at an index, if it exists. -/
def child? (i : OctantIndex) : List (OctantIndex × α) → Option α
  | [] => none
  | (j, c) :: rest => if i = j then some c else child? i rest

/-- The children with the one at `i` replaced, or put in its place in the order. -/
def put (i : OctantIndex) (c : α) : List (OctantIndex × α) → List (OctantIndex × α)
  | [] => [(i, c)]
  | (j, d) :: rest =>
    if i < j then (i, c) :: (j, d) :: rest
    else if i = j then (i, c) :: rest
    else (j, d) :: put i c rest

theorem child?_put (i j : OctantIndex) (c : α) (cs : List (OctantIndex × α)) :
    child? i (put j c cs) = if i = j then some c else child? i cs := by
  induction cs with
  | nil => simp [put, child?]
  | cons head rest ih =>
    obtain ⟨k, d⟩ := head
    simp only [put]
    split
    · simp [child?]
    · split
      · next h => subst h; simp only [child?]; split <;> simp_all
      · simp only [child?, ih]
        split
        · next h => subst h; split <;> simp_all
        · rfl

end Branch

namespace Octant

/-- A node without members and children. -/
def empty : (n : Nat) → Octant n
  | 0 => Leaf.mk .empty false
  | _ + 1 => Branch.mk [] false

def tracked : {n : Nat} → Octant n → Bool
  | 0, leaf => Leaf.tracked leaf
  | _ + 1, branch => Branch.tracked branch

/-- The node with its mark set or cleared. -/
def mark (flag : Bool) : {n : Nat} → Octant n → Octant n
  | 0, leaf => Leaf.mk (Leaf.names leaf) flag
  | _ + 1, branch => Branch.mk (Branch.children branch) flag

/-- The members of a leaf; an inner node has none of its own. -/
def ownNames : {n : Nat} → Octant n → NameSet
  | 0, leaf => Leaf.names leaf
  | _ + 1, _ => .empty

/-- A leaf with its members changed; an inner node stays. -/
def mapNames (f : NameSet → NameSet) : {n : Nat} → Octant n → Octant n
  | 0, leaf => Leaf.mk (f (Leaf.names leaf)) (Leaf.tracked leaf)
  | _ + 1, branch => branch

def childIndices : {n : Nat} → Octant n → List OctantIndex
  | 0, _ => []
  | _ + 1, branch => (Branch.children branch).map (·.1)

/-- The node at the end of a path, with the levels below it. -/
def lookup? : {n : Nat} → Octant n → List OctantIndex → Option ((m : Nat) × Octant m)
  | n, node, [] => some ⟨n, node⟩
  | 0, _, _ :: _ => none
  | _ + 1, branch, i :: path =>
    match Branch.child? i (Branch.children branch) with
    | none => none
    | some child => lookup? child path

/-- The tree with the node at the end of a path changed; nodes missing on the way are created. A
path longer than the tree is deep changes nothing. -/
def alter (f : {m : Nat} → Octant m → Octant m) : {n : Nat} → Octant n → List OctantIndex → Octant n
  | _, node, [] => f node
  | 0, leaf, _ :: _ => leaf
  | n + 1, branch, i :: path =>
    let children := Branch.children branch
    let child := (Branch.child? i children).getD (empty n)
    Branch.mk (Branch.put i (alter f child path) children) (Branch.tracked branch)

/-- The members of the leaves, leaf by leaf in order of their paths. -/
def leafNames : {n : Nat} → Octant n → List (List EntityName)
  | 0, leaf => [(Leaf.names leaf).names]
  | _ + 1, branch => (Branch.children branch).flatMap fun (_, child) => leafNames child

/-- The paths of the tracked leaves in order. -/
def trackedLeaves : {n : Nat} → Octant n → List (List OctantIndex)
  | 0, leaf => if Leaf.tracked leaf then [[]] else []
  | _ + 1, branch =>
    (Branch.children branch).flatMap fun (i, child) => (trackedLeaves child).map (i :: ·)

/-- The node or one below it is tracked. -/
def anyTracked : {n : Nat} → Octant n → Bool
  | 0, leaf => Leaf.tracked leaf
  | _ + 1, branch =>
    Branch.tracked branch || (Branch.children branch).any fun (_, child) => anyTracked child

def count : {n : Nat} → Octant n → Nat
  | 0, _ => 1
  | _ + 1, branch =>
    1 + ((Branch.children branch).map fun (_, child) => count child).foldr (· + ·) 0

end Octant

end RegionSync
