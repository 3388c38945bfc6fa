import PathQuery.Calendar.Reader
import PathQuery.Json.Record
import PathQuery.Value.Basic

/-!
# Values as tagged JSON

A value is stored as an object with the members `type`, the name of its kind, and `value`, its
content. The same may be read from an array of kind and content, and in an object a kind may also
be written as an object whose only member has its name and the value `null`.

**Reading.** Members other than the two are passed over, and what they hold is not judged beyond
the grammar. Neither of the two may be repeated.

**Kept contents.** A content that stands before its kind is kept until the kind is known, so it
has to be a JSON value in full. Inside it kinds have more spellings: in an object the member of a
kind's name may also have the value `{}`, and in an array a kind may be given by its number.

Main statement: `Kind.ofName?_name`, that the names of the kinds can be told apart.
-/

namespace PathQuery.Value

/-- The kinds of values. -/
inductive Kind
  | null | bool | int | double | string | bytes | date | moment | instant | clock | uuid | json
  | list
deriving DecidableEq, Repr

namespace Kind

/-- The name of a kind. -/
def name : Kind → String
  | .null => "Null"
  | .bool => "Bool"
  | .int => "Int"
  | .double => "Float"
  | .string => "String"
  | .bytes => "Bytes"
  | .date => "Date"
  | .moment => "DateTime"
  | .instant => "DateTimeTz"
  | .clock => "Time"
  | .uuid => "Uuid"
  | .json => "Json"
  | .list => "List"

/-- All kinds, in the order of their numbers. -/
def all : List Kind :=
  [.null, .bool, .int, .double, .string, .bytes, .date, .moment, .instant, .clock, .uuid, .json,
    .list]

/-- The kind of a name. -/
def ofName? (s : String) : Option Kind := all.find? (·.name == s)

theorem ofName?_name (k : Kind) : ofName? k.name = some k := by cases k <;> decide +kernel

end Kind

def kind : Value → Kind
  | .null => .null
  | .bool _ => .bool
  | .int _ => .int
  | .double _ => .double
  | .string _ => .string
  | .bytes _ => .bytes
  | .date _ => .date
  | .moment _ => .moment
  | .instant _ => .instant
  | .clock _ => .clock
  | .uuid _ => .uuid
  | .json _ => .json
  | .list _ => .list

/-! ## Writing -/

mutual

/-- The stored form of a value. -/
def toJson : Value → Json
  | .null => .object [("type", .string "Null")]
  | .bool b => tagged .bool (.bool b)
  | .int i => tagged .int (.int i)
  | .double d => tagged .double (if d.isFinite then .double d else .null)
  | .string s => tagged .string (.string s)
  | .bytes bs => tagged .bytes (.array (bs.map fun b => .int b.toNat))
  | .date d => tagged .date (.string (String.ofList d.write))
  | .moment m => tagged .moment (.string (String.ofList (m.write 'T')))
  | .instant m => tagged .instant (.string (String.ofList (m.write 'T') ++ "Z"))
  | .clock c => tagged .clock (.string (String.ofList c.write))
  | .uuid u => tagged .uuid (.string u.write)
  | .json j => tagged .json j
  | .list items => tagged .list (.array (itemsToJson items))
where
  /-- A kind with its content. -/
  tagged (k : Kind) (content : Json) : Json :=
    .object [("type", .string k.name), ("value", content)]

def itemsToJson : List Value → List Json
  | [] => []
  | v :: vs => toJson v :: itemsToJson vs

end

/-! ## Reading -/

open Json (Form)

/-- How a form comes to be read: as it stands in the text, or as a kept content or part of one. -/
inductive Passage
  | direct
  | kept
deriving DecidableEq, Repr

/-- A kind in an object: its name, or an object with the name of its only member. -/
def kindOfMember? (passage : Passage) (depth : Nat) : Form → Option Kind
  | .object [(name, .object [])] =>
    if passage = .kept then (Json.unitsText? name).bind Kind.ofName? else none
  | form => (form.word? depth).bind Kind.ofName?

/-- A kind in an array: its name, or its number. -/
def kindOfItem? (passage : Passage) : Form → Option Kind
  | .number n => match passage, n.toJson? with
    | .kept, some (.int i) => if 0 ≤ i then Kind.all[i.toNat]? else none
    | _, _ => none
  | form => form.text?.bind Kind.ofName?

/-- An integer in the signed 64-bit range. -/
def intOfForm? : Form → Option Int
  | .number n => match n.toJson? with
    | some (.int i) => if fitsSigned 64 i then some i else none
    | _ => none
  | _ => none

/-- The value of a kind with a given content, where `item` reads the items of a list. -/
def ofContent? (depth : Nat) (item : Form → Option Value) : Kind → Form → Option Value
  | .null, .null => some .null
  | .bool, .bool b => some (.bool b)
  | .int, form => (intOfForm? form).map .int
  | .double, .number n => match n.toJson? with
    | some (.int i) => some (.double (.ofInt i))
    | some (.double d) => some (.double d)
    | _ => none
  | .string, form => form.text?.map .string
  | .bytes, .array items =>
    if depth = 0 then none
    else (items.mapM fun form => do
      let i ← intOfForm? form
      if 0 ≤ i ∧ i < 256 then some (UInt8.ofNat i.toNat) else none).map .bytes
  | .date, form => (form.text?.bind Calendar.Date.read?).map .date
  | .moment, form => (form.text?.bind Calendar.Moment.read?).map .moment
  | .instant, form => (form.text?.bind Calendar.Moment.readUtc?).map .instant
  | .clock, form => (form.text?.bind Calendar.Clock.read?).map .clock
  | .uuid, form => (form.text?.bind Uuid.read?).map .uuid
  | .json, form => (form.toJson? depth).map .json
  | .list, .array items => if depth = 0 then none else (items.mapM item).map .list
  | _, _ => none

/-- Reads the stored form of a value that may nest `depth` levels deep. -/
def ofForm? : Nat → Passage → Form → Option Value
  | 0, _, _ => none
  | depth + 1, passage, form =>
    let item (passage : Passage) : Form → Option Value := match depth with
      | 0 => fun _ => none
      | depth + 1 => ofForm? depth passage
    match form with
    | .array [tag, content] => do
      ofContent? depth (item passage) (← kindOfItem? passage tag) content
    | .object members => do
      let members ← Form.named? members
      match members.filter fun m => m.1 == "type" || m.1 == "value" with
      | [("type", tag)] =>
        if (← kindOfMember? passage depth tag) = .null then some .null else none
      | [("type", tag), ("value", content)] =>
        ofContent? depth (item passage) (← kindOfMember? passage depth tag) content
      | [("value", content), ("type", tag)] =>
        let _ ← content.toJson? depth
        ofContent? depth (item .kept) (← kindOfMember? passage depth tag) content
      | _ => none
    | _ => none

/-- Reads the text of a stored value. -/
def read? (s : String) : Option Value := (Form.read? s).bind (ofForm? Json.maxDepth .direct)

end PathQuery.Value
