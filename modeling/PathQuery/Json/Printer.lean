import PathQuery.Json.Basic
import PathQuery.Number.Layout
import PathQuery.Text.Quoted

/-!
# Writing JSON values

`Json.compact` is the text without any space. A quote, a backslash and the control characters are
escaped, the latter by their short escapes where there is one; all other characters are written
as they are. A double that is not finite is written `null`.

`Json.diagnostic` names the kind of each value, for readers of an error message.
-/

namespace PathQuery.Json

/-- One character inside the quotes of a JSON string. -/
def escapedChar (c : Char) : List Char :=
  match c with
  | '"' => ['\\', '"']
  | '\\' => ['\\', '\\']
  | '\x08' => ['\\', 'b']
  | '\x0c' => ['\\', 'f']
  | '\n' => ['\\', 'n']
  | '\r' => ['\\', 'r']
  | '\t' => ['\\', 't']
  | _ => if c.toNat < 0x20 then ['\\', 'u'] ++ Text.hexPadded 4 c.toNat else [c]

/-- A JSON string. -/
def stringText (s : String) : String :=
  String.ofList ('"' :: s.toList.flatMap escapedChar ++ ['"'])

/-- A double as a JSON number. -/
def doubleText (d : Double) : String := if d.isFinite then Layout.json.write d else "null"

mutual

/-- The text of a value without spaces. -/
def compact : Json → String
  | .null => "null"
  | .bool b => if b then "true" else "false"
  | .int i => toString i
  | .double d => doubleText d
  | .string s => stringText s
  | .array items => "[" ++ ",".intercalate (compactItems items) ++ "]"
  | .object members => "\x7b" ++ ",".intercalate (compactMembers members) ++ "\x7d"

def compactItems : List Json → List String
  | [] => []
  | x :: xs => compact x :: compactItems xs

def compactMembers : List (String × Json) → List String
  | [] => []
  | (k, v) :: rest => (stringText k ++ ":" ++ compact v) :: compactMembers rest

end

mutual

/-- The text of a value with the kind of each part. -/
def diagnostic : Json → String
  | .null => "Null"
  | .bool b => if b then "Bool(true)" else "Bool(false)"
  | .int i => "Number(" ++ toString i ++ ")"
  | .double d => "Number(" ++ doubleText d ++ ")"
  | .string s => "String(" ++ Text.quoted s ++ ")"
  | .array items => "Array [" ++ ", ".intercalate (diagnosticItems items) ++ "]"
  | .object members => "Object \x7b" ++ ", ".intercalate (diagnosticMembers members) ++ "\x7d"

def diagnosticItems : List Json → List String
  | [] => []
  | x :: xs => diagnostic x :: diagnosticItems xs

def diagnosticMembers : List (String × Json) → List String
  | [] => []
  | (k, v) :: rest => (Text.quoted k ++ ": " ++ diagnostic v) :: diagnosticMembers rest

end

end PathQuery.Json
