import PathQuery.Json.Printer
import PathQuery.Value.Basic

/-!
# Texts of values

`Value.text` is for readers of a value, `Value.diagnostic` for readers of an error message: there
every value is named by its kind, and strings are quoted.
-/

namespace PathQuery.Value

mutual

/-- The text of a value. -/
def text : Value → String
  | .null => "NULL"
  | .bool b => if b then "true" else "false"
  | .int i => toString i
  | .double d => Layout.plain.write d
  | .string s => s
  | .bytes bs => "<" ++ toString bs.length ++ " bytes>"
  | .date d => String.ofList d.write
  | .moment m => String.ofList (m.write ' ')
  | .instant m => String.ofList (m.write ' ') ++ " UTC"
  | .clock c => String.ofList c.write
  | .uuid u => u.write
  | .json j => j.compact
  | .list items => "[" ++ ", ".intercalate (texts items) ++ "]"

def texts : List Value → List String
  | [] => []
  | v :: vs => text v :: texts vs

end

mutual

/-- The text of a value with its kind. -/
def diagnostic : Value → String
  | .null => "Null"
  | .bool b => if b then "Bool(true)" else "Bool(false)"
  | .int i => "Int(" ++ toString i ++ ")"
  | .double d => "Float(" ++ Layout.diagnostic.write d ++ ")"
  | .string s => "String(" ++ Text.quoted s ++ ")"
  | .bytes bs => "Bytes([" ++ ", ".intercalate (bs.map fun b => toString b.toNat) ++ "])"
  | .date d => "Date(" ++ String.ofList d.write ++ ")"
  | .moment m => "DateTime(" ++ String.ofList (m.write 'T') ++ ")"
  | .instant m => "DateTimeTz(" ++ String.ofList (m.write 'T') ++ "Z)"
  | .clock c => "Time(" ++ String.ofList c.write ++ ")"
  | .uuid u => "Uuid(" ++ u.write ++ ")"
  | .json j => "Json(" ++ j.diagnostic ++ ")"
  | .list items => "List([" ++ ", ".intercalate (diagnostics items) ++ "])"

def diagnostics : List Value → List String
  | [] => []
  | v :: vs => diagnostic v :: diagnostics vs

end

end PathQuery.Value
