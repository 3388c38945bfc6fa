import PathQuery.Json.Basic
import PathQuery.Toml.Moment

/-!
# The tables of a TOML text

A text is a list of statements that build a tree of tables from its root: a header opens a table,
a header in double brackets adds an element to an array of tables, and a pair gives a key its
value.

**Who may extend a table.** A table is there once its own header has named it (`header`), because
it stands on the way to another one (`implied`), or because a key with points leads through it
(`dotted`). A header may name a table that is only implied, and no other. A key with points may
lead through all tables but those with a header of their own, and its last step must be in a
dotted one. Every path leads into the last element of an array of tables. What was given as a
value is closed, also a table in braces (`braces`), and no key is given twice.

**Order of the keys.** Keys stand in the order in which they were first given, but a header moves
the table that it opens behind all other keys. The order matters in one place: a table whose
first key is `momentKey` stands for the date or time that this key quotes, whatever else is in
it.
-/

namespace PathQuery.Toml

/-- How a table came to be. -/
inductive Origin
  | header
  | implied
  | dotted
  | braces
deriving DecidableEq, Repr

/-- What a key stands for. -/
inductive Node
  | value (content : Json)
  | moment (text : String)
  | list (items : List Node)
  | table (origin : Origin) (members : List (String × Node))
  | elements (tables : List (List (String × Node)))

/-- The keys of a table with what they stand for. -/
abbrev Members := List (String × Node)

namespace Members

/-- The members with one of them set. -/
def put (key : String) (node : Node) : Members → Members
  | [] => [(key, node)]
  | (k, n) :: rest => if k = key then (key, node) :: rest else (k, n) :: put key node rest

/-- The members of a table with a change made in the table that a path leads to. Tables missing
on the way are made, and `dotted` says whether the path is that of a key with points. -/
def alter (dotted : Bool) (change : Origin → Members → Option Members) :
    List String → Origin → Members → Option Members
  | [], origin, members => change origin members
  | key :: path, _, members =>
    match List.lookup key members with
    | none =>
      let made : Origin := if dotted then .dotted else .implied
      (alter dotted change path made []).map fun inner => put key (.table made inner) members
    | some (.table origin inner) =>
      if origin == .braces || (dotted && origin == .header) then none
      else
        (alter dotted change path origin inner).map fun inner =>
          put key (.table origin inner) members
    | some (.elements tables) =>
      match tables.getLast? with
      | none => none
      | some last =>
        (alter dotted change path .header last).map fun last =>
          put key (.elements (tables.dropLast ++ [last])) members
    | some _ => none

/-! ## Statements -/

/-- Opens the table of a header. -/
def openTable (path : List String) (key : String) (root : Members) : Option Members :=
  let change (_ : Origin) (members : Members) : Option Members :=
    match List.lookup key members with
    | none => some (members ++ [(key, .table .header [])])
    | some (.table .implied inner) =>
      some (members.filter (·.1 != key) ++ [(key, .table .header inner)])
    | some _ => none
  alter false change path .header root

/-- Adds an element to the array of tables of a header. -/
def addElement (path : List String) (key : String) (root : Members) : Option Members :=
  let change (_ : Origin) (members : Members) : Option Members :=
    match List.lookup key members with
    | none => some (put key (.elements [[]]) members)
    | some (.elements tables) => some (put key (.elements (tables ++ [[]])) members)
    | some _ => none
  alter false change path .header root

/-- Gives a key its value in the table that a path leads to from a table under a header. -/
def give (path : List String) (key : String) (content : Node) (members : Members) :
    Option Members :=
  let change (origin : Origin) (members : Members) : Option Members :=
    if (origin == .dotted) == path.isEmpty then none
    else match List.lookup key members with
      | none => some (put key content members)
      | some _ => none
  alter true change path .header members

/-- Gives a key its value in the table of a header. -/
def giveUnder (header path : List String) (key : String) (content : Node) (root : Members) :
    Option Members :=
  alter false (fun _ members => give path key content members) header .header root

end Members

/-! ## The value of a tree -/

/-- The key of a quoted moment. -/
def momentKey : String := "$__toml_private_datetime"

/-- The moment that a string quotes. -/
def Node.quotedMoment? : Node → Option String
  | .value (.string s) => Toml.quotedMoment? s
  | _ => none

mutual

/-- The value of a node, unless a moment in it is quoted wrongly. -/
def Node.toJson? : Node → Option Json
  | .value content => some content
  | .moment text => some (.string text)
  | .list items => (nodesToJson? items).map .array
  | .table _ members => tableToJson? members
  | .elements tables => (tablesToJson? tables).map .array

def tableToJson? : List (String × Node) → Option Json
  | [] => some (.object [])
  | (key, node) :: rest =>
    if key = momentKey then node.quotedMoment?.map .string
    else do
      let value ← node.toJson?
      let values ← membersToJson? rest
      return .object (Json.ofMembers ((key, value) :: values))

def membersToJson? : List (String × Node) → Option (List (String × Json))
  | [] => some []
  | (key, node) :: rest => do
    let value ← node.toJson?
    let values ← membersToJson? rest
    return (key, value) :: values

def nodesToJson? : List Node → Option (List Json)
  | [] => some []
  | node :: rest => do
    let value ← node.toJson?
    let values ← nodesToJson? rest
    return value :: values

def tablesToJson? : List (List (String × Node)) → Option (List Json)
  | [] => some []
  | members :: rest => do
    let value ← tableToJson? members
    let values ← tablesToJson? rest
    return value :: values

end

end PathQuery.Toml
