import PathQuery.Json.Reader

/-!
# Records in JSON texts

How a record with named fields and a choice between named alternatives are found in the written
form of a text. A record is an object or an array of its fields in order; an alternative without
content is a string, or an object whose only member has its name and the value `null`.

In an object, other members are passed over, and what they hold is not judged beyond the grammar.
-/

namespace PathQuery.Json.Form

/-- The text of a string. -/
def text? : Form → Option String
  | .string units => unitsText? units
  | _ => none

/-- The name of an alternative, in a text that may nest `depth` levels deep. -/
def word? (depth : Nat) : Form → Option String
  | .string units => unitsText? units
  | .object [(name, .null)] => if depth = 0 then none else unitsText? name
  | _ => none

/-- The members of an object with the texts of their names. -/
def named? : List (List StringUnit × Form) → Option (List (String × Form))
  | [] => some []
  | (units, form) :: rest => do
    let name ← unitsText? units
    let rest ← named? rest
    return (name, form) :: rest

/-- The one member of a name, if there is one; a name that is repeated is refused. -/
def single? (members : List (String × Form)) (name : String) : Option (Option Form) :=
  match members.filter (·.1 == name) with
  | [] => some none
  | [(_, form)] => some (some form)
  | _ => none

/-- The fields of a record in the order of their names; one that is missing is `none`. -/
def fields? (names : List String) : Form → Option (List (Option Form))
  | .array items => if items.length = names.length then some (items.map some) else none
  | .object members => (named? members).bind fun members => names.mapM (single? members)
  | _ => none

end PathQuery.Json.Form
