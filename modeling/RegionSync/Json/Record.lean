import RegionSync.Json.Basic

/-!
Records in JSON. A record is an object, in which a known field stands at most once and unknown ones
are ignored, or an array of the field values in order. Reading gives the values field by field;
what a missing field means is for the record's own reader to say.
-/

namespace RegionSync.Json

/-- The values of the key, in order; `none` if a key is not text. -/
def valuesOf? (key : String) : List (Option String × Json) → Option (List Json)
  | [] => some []
  | (none, _) :: _ => none
  | (some k, v) :: rest => do
    let values ← valuesOf? key rest
    return if k = key then v :: values else values

def record? (names : List String) : Json → Option (List (Option Json))
  | object fields =>
    names.mapM fun name => do
      match ← valuesOf? name fields with
      | [] => some none
      | [v] => some (some v)
      | _ => none
  | array items =>
    if items.length ≤ names.length then
      some ((items.map some) ++ List.replicate (names.length - items.length) none)
    else none
  | _ => none

/-- As `record?`, with unknown fields refused. -/
def closedRecord? (names : List String) (j : Json) : Option (List (Option Json)) :=
  match j with
  | object fields =>
    if fields.all fun (key, _) => (key.map names.contains).getD false then record? names j else none
  | _ => record? names j

/-- A whole number below the bound, written without sign, point or exponent. -/
def nat? (bound : Nat) : Json → Option Nat
  | number text => if text.all Char.isDigit then Text.readNat? bound text else none
  | _ => none

def uint8? (j : Json) : Option UInt8 := (nat? (2 ^ 8) j).map UInt8.ofNat

def uint32? (j : Json) : Option UInt32 := (nat? (2 ^ 32) j).map UInt32.ofNat

def uint64? (j : Json) : Option UInt64 := (nat? (2 ^ 64) j).map UInt64.ofNat

def bool? : Json → Option Bool
  | bool b => some b
  | _ => none

def string? : Json → Option String
  | string s => s
  | _ => none

/-- A list whose items all read. -/
def list? {α : Type} (item? : Json → Option α) : Json → Option (List α)
  | array items => items.mapM item?
  | _ => none

/-- A field that has to be there. -/
def required {α : Type} (read? : Json → Option α) (value : Option Json) : Option α :=
  value.bind read?

/-- A field that stands for `default` where it is missing. -/
def optional {α : Type} (default : α) (read? : Json → Option α) (value : Option Json) : Option α :=
  match value with
  | none => some default
  | some j => read? j

end RegionSync.Json
