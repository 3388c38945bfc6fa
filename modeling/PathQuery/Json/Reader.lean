import PathQuery.Json.Number

/-!
# Reading JSON values

`Json.read?` gives the value of a text. Beyond the grammar it refuses numbers that are too large,
escaped surrogates that do not come in pairs, and more than 127 levels of arrays and objects. Of
a repeated name in an object the last member counts.
-/

namespace PathQuery.Json

/-- The text of a string as it is written, unless it holds a surrogate without its partner. -/
def decodeUnits : List StringUnit → Option (List Char)
  | [] => some []
  | .char c :: rest => (decodeUnits rest).map (c :: ·)
  | .escape high :: .escape low :: rest =>
    if 0xD800 ≤ high ∧ high < 0xDC00 then
      if 0xDC00 ≤ low ∧ low < 0xE000 then
        (decodeUnits rest).map
          (Char.ofNat (0x10000 + (high - 0xD800) * 0x400 + (low - 0xDC00)) :: ·)
      else none
    else if 0xDC00 ≤ high ∧ high < 0xE000 then none
    else (decodeUnits (.escape low :: rest)).map (Char.ofNat high :: ·)
  | .escape unit :: rest =>
    if 0xD800 ≤ unit ∧ unit < 0xE000 then none
    else (decodeUnits rest).map (Char.ofNat unit :: ·)

/-- The text of a string as it is written. -/
def unitsText? (units : List StringUnit) : Option String :=
  (decodeUnits units).map String.ofList

/-- The greatest number of arrays and objects inside each other. -/
def maxDepth : Nat := 127

namespace Form

mutual

/-- The value of a written form that may nest `depth` levels deep. -/
def toJson? (depth : Nat) : Form → Option Json
  | .null => some .null
  | .bool b => some (.bool b)
  | .number n => n.toJson?
  | .string units => (unitsText? units).map .string
  | .array items =>
    if depth = 0 then none else (itemsToJson? (depth - 1) items).map .array
  | .object members =>
    if depth = 0 then none
    else (membersToJson? (depth - 1) members).map fun ms => .object (ofMembers ms)

def itemsToJson? (depth : Nat) : List Form → Option (List Json)
  | [] => some []
  | item :: rest => do
    let value ← toJson? depth item
    let values ← itemsToJson? depth rest
    return value :: values

def membersToJson? (depth : Nat) : List (List StringUnit × Form) → Option (List (String × Json))
  | [] => some []
  | (name, form) :: rest => do
    let key ← unitsText? name
    let value ← toJson? depth form
    let values ← membersToJson? depth rest
    return (key, value) :: values

end

end Form

/-- The value of a JSON text. -/
def read? (s : String) : Option Json := (Form.read? s).bind (Form.toJson? maxDepth)

end PathQuery.Json
