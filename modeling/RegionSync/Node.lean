import RegionSync.Text.Hex

/-!
Identities of nodes: sixteen bytes, written as hexadecimal digits in five groups.
-/

namespace RegionSync

/-- A sixteen-byte identity. -/
structure NodeId where
  bytes : Bytes
  deriving DecidableEq, Repr

namespace NodeId

/-- The constant that spreads seeds over identities and keys. -/
def spreader : UInt64 := 0x517cc1b727220a95

/-- The identity of a numbered node in a simulation. -/
def ofSeed (seed : UInt64) : NodeId :=
  ⟨LowFirst.bytes 8 seed.toNat ++ LowFirst.bytes 8 (seed * spreader).toNat⟩

/-- The digits in groups of 8, 4, 4, 4 and 12. -/
def text (n : NodeId) : String :=
  let group (start count : Nat) := Text.Hex.encode ((n.bytes.drop start).take count)
  "-".intercalate [group 0 4, group 4 2, group 6 2, group 8 2, group 10 6]

def short (n : NodeId) : String :=
  Text.Hex.encode (n.bytes.take 4)

/-- The identity of 32 digits without groups. -/
def ofDigits? (cs : List Char) : Option NodeId :=
  if cs.length = 32 then (Text.Hex.decode? cs).map NodeId.mk else none

/-- The identity of digits in groups. -/
def ofGroups? (cs : List Char) : Option NodeId :=
  if cs.length = 36 ∧ [8, 13, 18, 23].all (fun i => cs[i]? == some '-') then
    ofDigits? (cs.take 8 ++ (cs.drop 9).take 4 ++ (cs.drop 14).take 4 ++ (cs.drop 19).take 4 ++
      cs.drop 24)
  else none

/-- The identity that the text writes: digits alone or in groups, the groups also in braces or after
`urn:uuid:` in letters of either case. -/
def ofText? (s : String) : Option NodeId :=
  let cs := s.toList
  match cs.length with
  | 32 => ofDigits? cs
  | 36 => ofGroups? cs
  | 38 => if cs.head? = some '\x7b' ∧ cs.getLast? = some '\x7d' then
      ofGroups? ((cs.drop 1).take 36) else none
  | 45 => if (cs.take 9).map Char.toLower = "urn:uuid:".toList then ofGroups? (cs.drop 9) else none
  | _ => none

end NodeId

end RegionSync
