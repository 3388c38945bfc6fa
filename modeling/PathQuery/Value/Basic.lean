import PathQuery.Calendar.Moment
import PathQuery.Json.Basic
import PathQuery.Uuid

/-!
# Values

What a parameter of a query is bound to and what a column of a row holds.

A value is *null* only if it is `null`. It is *empty* if there is nothing to compare with: null,
an empty text, no bytes, no items, or the JSON value `null`.
-/

namespace PathQuery

open Calendar in
inductive Value
  | null
  | bool (b : Bool)
  | int (i : Int)
  | double (d : Double)
  | string (s : String)
  | bytes (bs : List UInt8)
  | date (d : Date)
  /-- A day and a time of day in no time zone. -/
  | moment (m : Moment)
  /-- A day and a time of day in UTC. -/
  | instant (m : Moment)
  | clock (c : Clock)
  | uuid (u : Uuid)
  | json (j : Json)
  | list (items : List Value)
deriving Inhabited

namespace Value

def isNull : Value → Bool
  | .null => true
  | _ => false

/-- Whether the value is of no use as a criterion. -/
def isEmpty : Value → Bool
  | .null => true
  | .string s => s.isEmpty
  | .bytes bs => bs.isEmpty
  | .list items => items.isEmpty
  | .json .null => true
  | _ => false

/-- The value of something that may be absent. -/
def ofOption {α : Type} (of : α → Value) : Option α → Value
  | some a => of a
  | none => .null

theorem isEmpty_of_isNull {v : Value} (h : v.isNull = true) : v.isEmpty = true := by
  cases v <;> first | rfl | cases h

/-! ## Equality -/

mutual

/-- Equality of values: a NaN differs from itself, and the two zeros are equal. -/
def same : Value → Value → Bool
  | .null, .null => true
  | .bool a, .bool b => a == b
  | .int a, .int b => a == b
  | .double a, .double b => a.same b
  | .string a, .string b => a == b
  | .bytes a, .bytes b => a == b
  | .date a, .date b => a == b
  | .moment a, .moment b => a == b
  | .instant a, .instant b => a == b
  | .clock a, .clock b => a == b
  | .uuid a, .uuid b => a == b
  | .json a, .json b => a.same b
  | .list xs, .list ys => sameItems xs ys
  | _, _ => false

def sameItems : List Value → List Value → Bool
  | [], [] => true
  | x :: xs, y :: ys => same x y && sameItems xs ys
  | _, _ => false

end

end Value

end PathQuery
