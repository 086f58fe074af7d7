import RegionSync.Text.Split
import RegionSync.Text.Utf8

/-!
Hierarchical names: sequences of components, written with a slash before each. A name is read from
text or extended by text, and both ways slashes separate components and empty ones vanish.
-/

namespace RegionSync

structure Name where
  components : List String
  deriving DecidableEq, Repr

namespace Name

def root : Name := ⟨[]⟩

def componentsOf (text : String) : List String :=
  (Text.segments '/' text.toList).map String.ofList

/-- The text has a blank, which can only be inside a component. -/
def hasBlank (text : String) : Bool :=
  text.toList.any Text.isBlank

/-- The name that the text writes; blanks have no place in it. -/
def ofText? (text : String) : Option Name :=
  if hasBlank text then none else some ⟨componentsOf text⟩

/-- The name extended by the components that the text writes. -/
def child (n : Name) (text : String) : Name :=
  ⟨n.components ++ componentsOf text⟩

def length (n : Name) : Nat :=
  n.components.length

def isRoot (n : Name) : Bool :=
  n.components.isEmpty

def last? (n : Name) : Option String :=
  n.components.getLast?

def take (n : Name) (count : Nat) : Name :=
  ⟨n.components.take count⟩

/-- What follows `p` in `n`, if `n` starts with `p`. -/
def rest? (p n : Name) : Option (List String) :=
  p.components.isPrefixOf? n.components

def covers (p n : Name) : Bool :=
  p.components.isPrefixOf n.components

def text (n : Name) : String :=
  if n.components.isEmpty then "/"
  else String.join (n.components.map ("/" ++ ·))

instance : ToString Name := ⟨text⟩

/-- Order by components, and components by code points. -/
def compare (a b : Name) : Ordering :=
  compareOfLessAndEq a.components b.components

end Name

end RegionSync
