import RegionSync.Text.Number

/-!
JSON documents. Numbers keep their text, so nothing is lost by reading one, and a string that names
a lone surrogate is kept as `none`: it may stand where the document is ignored and nowhere else.
-/

namespace RegionSync

inductive Json
  | null
  | bool (b : Bool)
  | number (text : List Char)
  | string (s : Option String)
  | array (items : List Json)
  | object (fields : List (Option String × Json))

namespace Json

def ofNat (n : Nat) : Json :=
  .number (Text.decimal n)

def ofString (s : String) : Json :=
  .string (some s)

/-- An object with these fields in this order. -/
def ofFields (fields : List (String × Json)) : Json :=
  .object (fields.map fun (key, value) => (some key, value))

/-- The escape for one character inside a string. -/
def escape (c : Char) : List Char :=
  match c with
  | '"' => ['\\', '"']
  | '\\' => ['\\', '\\']
  | '\n' => ['\\', 'n']
  | '\r' => ['\\', 'r']
  | '\t' => ['\\', 't']
  | c =>
    if c.toNat = 8 then ['\\', 'b']
    else if c.toNat = 12 then ['\\', 'f']
    else if c.toNat < 0x20 then
      ['\\', 'u', '0', '0', Nat.digitChar (c.toNat / 16), Nat.digitChar (c.toNat % 16)]
    else [c]

def stringText (s : Option String) : List Char :=
  '"' :: (s.getD "").toList.flatMap escape ++ ['"']

/-- A line break and the indentation of this depth. -/
def newline (depth : Nat) : List Char :=
  '\n' :: List.replicate (2 * depth) ' '

mutual

/-- The document over several lines, each level indented by two blanks. -/
def prettyAt (depth : Nat) : Json → List Char
  | null => ['n', 'u', 'l', 'l']
  | bool true => ['t', 'r', 'u', 'e']
  | bool false => ['f', 'a', 'l', 's', 'e']
  | number text => text
  | string s => stringText s
  | array [] => ['[', ']']
  | array (item :: items) =>
    '[' :: newline (depth + 1) ++ prettyAt (depth + 1) item ++ prettyItems depth items ++
      newline depth ++ [']']
  | object [] => ['\x7b', '\x7d']
  | object ((key, value) :: fields) =>
    '\x7b' :: newline (depth + 1) ++ stringText key ++ [':', ' '] ++ prettyAt (depth + 1) value ++
      prettyFields depth fields ++ newline depth ++ ['\x7d']

def prettyItems (depth : Nat) : List Json → List Char
  | [] => []
  | item :: items =>
    ',' :: newline (depth + 1) ++ prettyAt (depth + 1) item ++ prettyItems depth items

def prettyFields (depth : Nat) : List (Option String × Json) → List Char
  | [] => []
  | (key, value) :: fields =>
    ',' :: newline (depth + 1) ++ stringText key ++ [':', ' '] ++ prettyAt (depth + 1) value ++
      prettyFields depth fields

end

def pretty (j : Json) : String :=
  String.ofList (j.prettyAt 0)

end Json

end RegionSync
