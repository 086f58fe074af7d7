import RegionSync.Text.Hidden

/-!
Quoted text, as messages show what they reject: in double quotes, with a backslash before what would
end the quotes and an escape for every character that cannot be shown.
-/

namespace RegionSync.Text

/-- The escape for one character: a name, a code point in braces, or the character itself. -/
def escape (c : Char) : List Char :=
  if c == '"' || c == '\\' then ['\\', c]
  else if c == '\t' then ['\\', 't']
  else if c == '\n' then ['\\', 'n']
  else if c == '\r' then ['\\', 'r']
  else if c.toNat == 0 then ['\\', '0']
  else if isHidden c then ['\\', 'u', '\x7b'] ++ Nat.toDigits 16 c.toNat ++ ['\x7d']
  else [c]

def quoted (s : String) : String :=
  String.ofList ('"' :: s.toList.flatMap escape ++ ['"'])

end RegionSync.Text
