import RegionSync.Entity.Name

/-!
Sets of players in order of insertion, with a digest of their content. The digest folds the texts of
the names by exclusive or, in order, and hashes the last fold with 32-bit FNV-1a; order is part of
the content.
-/

namespace RegionSync

/-- The 32-bit FNV-1a hash. -/
def fnv1a (bytes : Bytes) : UInt32 :=
  bytes.foldl (fun hash b => (hash ^^^ b.toUInt32) * 16777619) 2166136261

namespace Digest

/-- The key before the first name. -/
def seed : Bytes := Text.bytesOf "debug"

/-- The text combined with the key, which repeats as often as needed. -/
def fold (key text : Bytes) : Bytes :=
  if key.isEmpty then text
  else text.mapIdx fun i b => b ^^^ key.getD (i % key.length) 0

/-- The key after all names. -/
def key (names : List EntityName) : Bytes :=
  names.foldl (fun key name => fold key (Text.bytesOf name.text)) seed

/-- The digest of names in order. -/
def ofNames (names : List EntityName) : UInt32 :=
  fnv1a (key names)

end Digest

/-- A set of names in order of insertion. The digest is that of the last refresh. -/
structure NameSet where
  names : List EntityName
  digest : UInt32
  deriving DecidableEq

namespace NameSet

def empty : NameSet := ⟨[], Digest.ofNames []⟩

def contains (s : NameSet) (e : EntityName) : Bool :=
  s.names.contains e

/-- The set with `e` at its end, unless it is in there already. -/
def insert (s : NameSet) (e : EntityName) : NameSet :=
  if s.contains e then s else { s with names := s.names ++ [e] }

/-- The set without `e`, the others in their order. -/
def remove (s : NameSet) (e : EntityName) : NameSet :=
  { s with names := s.names.erase e }

/-- The set with the missing names of a list at its end, in the order of the list. -/
def insertAll (s : NameSet) (es : List EntityName) : NameSet :=
  es.foldl insert s

def computeDigest (s : NameSet) : UInt32 :=
  Digest.ofNames s.names

/-- The set with its digest brought up to date. -/
def refresh (s : NameSet) : NameSet :=
  { s with digest := s.computeDigest }

/-- The set of the names of a list. -/
def ofList (es : List EntityName) : NameSet :=
  (empty.insertAll es).refresh

theorem digest_refresh (s : NameSet) : s.refresh.digest = s.refresh.computeDigest := rfl

theorem names_insert_of_contains {s : NameSet} {e : EntityName} (h : s.contains e = true) :
    s.insert e = s := by
  simp [insert, h]

theorem mem_insert {s : NameSet} {e f : EntityName} :
    f ∈ (s.insert e).names ↔ f ∈ s.names ∨ f = e := by
  unfold insert
  split
  · next h =>
    have : e ∈ s.names := by simpa [contains] using h
    constructor
    · exact Or.inl
    · rintro (h | rfl)
      · exact h
      · exact this
  · simp

end NameSet

end RegionSync
