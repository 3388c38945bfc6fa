import PathQuery.Toml.Number
import PathQuery.Toml.Tree

/-!
# Reading TOML texts

`Toml.read?` gives the value of a whole text as JSON: dates and times become texts, and numbers
that are not finite become null. Arrays may go over several lines, tables in braces may not. Of
arrays and tables in braces at most 79 may stand inside each other.
-/

namespace PathQuery.Toml

/-! ## Values -/

mutual

/-- A value that may nest `depth` levels deep. The fuel bounds the number of steps; twice the
length of the text is enough. -/
def value : (fuel depth : Nat) → Reader Node
  | 0, _, _ => none
  | fuel + 1, depth, cs =>
    match cs with
    | '"' :: _ | '\'' :: _ => (string cs).map fun (s, rest) => (.value (.string s), rest)
    | '[' :: rest =>
      if depth = 0 then none
      else (items fuel (depth - 1) rest).map fun (items, rest) => (.list items, rest)
    | '\x7b' :: rest =>
      if depth = 0 then none
      else match skipGap rest with
        | '\x7d' :: rest => some (.table .braces [], rest)
        | rest => (pairs fuel (depth - 1) [] rest).map fun (ms, rest) => (.table .braces ms, rest)
    | 't' :: 'r' :: 'u' :: 'e' :: rest => some (.value (.bool true), rest)
    | 'f' :: 'a' :: 'l' :: 's' :: 'e' :: rest => some (.value (.bool false), rest)
    | _ =>
      match moment cs with
      | some (text, rest) => some (.moment text, rest)
      | none => (number cs).map fun (n, rest) => (.value n, rest)

/-- The items of an array up to its closing bracket. -/
def items : (fuel depth : Nat) → Reader (List Node)
  | 0, _, _ => none
  | fuel + 1, depth, cs => do
    match ← skipLines false cs with
    | ']' :: rest => return ([], rest)
    | cs =>
      let (item, cs) ← value fuel depth cs
      match ← skipLines false cs with
      | ']' :: rest => return ([item], rest)
      | ',' :: rest =>
        let (items, rest) ← items fuel depth rest
        return (item :: items, rest)
      | _ => none

/-- The pairs of a table in braces up to the closing one, behind those read before. -/
def pairs : (fuel depth : Nat) → Members → Reader Members
  | 0, _, _, _ => none
  | fuel + 1, depth, members, cs => do
    let ((path, name), cs) ← key cs
    match cs with
    | '=' :: cs =>
      let (content, cs) ← value fuel depth (skipGap cs)
      let members ← members.give path name content
      match skipGap cs with
      | '\x7d' :: rest => return (members, rest)
      | ',' :: rest => pairs fuel depth members rest
      | _ => none
    | _ => none

end

/-! ## Statements -/

/-- What one statement of a text does. -/
inductive Statement
  | table (path : List String) (key : String)
  | element (path : List String) (key : String)
  | pair (path : List String) (key : String) (content : Node)

/-- A statement, up to the end of its line. -/
def statement : Reader Statement
  | '[' :: '[' :: cs => do
    let ((path, name), cs) ← key cs
    match cs with
    | ']' :: ']' :: rest => return (.element path name, ← lineEnd? rest)
    | _ => none
  | '[' :: cs => do
    let ((path, name), cs) ← key cs
    match cs with
    | ']' :: rest => return (.table path name, ← lineEnd? rest)
    | _ => none
  | cs => do
    let ((path, name), cs) ← key cs
    match cs with
    | '=' :: cs =>
      let (content, rest) ← value (2 * cs.length + 2) maxDepth (skipGap cs)
      return (.pair path name content, ← lineEnd? rest)
    | _ => none

/-- The statements of a text, with fuel for each of its lines. -/
def statements : Nat → List Char → Option (List Statement)
  | 0, _ => none
  | fuel + 1, cs =>
    match skipGap cs with
    | [] => some []
    | '#' :: rest => (lineEnd? ('#' :: rest)).bind (statements fuel)
    | cs =>
      match lineBreak? cs with
      | some rest => statements fuel rest
      | none => do
        let (s, rest) ← statement cs
        return s :: (← statements fuel rest)

/-- The root after some statements, the first of them under a header. -/
def run : (header : List String) → List Statement → Members → Option Members
  | _, [], root => some root
  | _, .table path key :: rest, root =>
    (root.openTable path key).bind (run (path ++ [key]) rest)
  | _, .element path key :: rest, root =>
    (root.addElement path key).bind (run (path ++ [key]) rest)
  | header, .pair path key content :: rest, root =>
    (root.giveUnder header path key content).bind (run header rest)

/-- The text without a byte order mark. -/
def dropMark : List Char → List Char
  | '\uFEFF' :: rest => rest
  | rest => rest

/-- The value of a text. -/
def read? (s : String) : Option Json := do
  let cs := dropMark s.toList
  let root ← run [] (← statements (cs.length + 1) cs) []
  tableToJson? root

end PathQuery.Toml
