import PathQuery.Error
import PathQuery.Value.Printer

/-!
# Rows of a result

A row pairs column names with values, one for one; a name may occur more than once, and then its
first column counts.

**Typed access.** A value is read as one of a few types. An integer may be read as a double and as
a truth value, a text as a universally unique identifier; any other mismatch is an error that
shows the value.
-/

namespace PathQuery

structure Row where
  columns : List String
  values : List Value
  length_eq : columns.length = values.length

namespace Row

/-- The row of these columns and values, if there are as many of the one as of the other. -/
def of (columns : List String) (values : List Value) : Except Error Row :=
  if h : columns.length = values.length then .ok ⟨columns, values, h⟩
  else
    .error (.session ("Row has " ++ toString columns.length ++ " columns but " ++
      toString values.length ++ " values"))

/-- The value of the first column of a name. -/
def value? (r : Row) (column : String) : Option Value :=
  (r.columns.idxOf? column).bind fun i => r.values[i]?

/-- The value of the first column of a name, or an error. -/
def value (r : Row) (column : String) : Except Error Value :=
  match r.value? column with
  | some v => .ok v
  | none => .error (.session s!"Column '{column}' not found in row")

/-- The value of a column by its position. -/
def valueAt (r : Row) (i : Nat) : Except Error Value :=
  match r.values[i]? with
  | some v => .ok v
  | none =>
    .error (.session ("Column index " ++ toString i ++ " out of bounds (row has " ++
      toString r.values.length ++ " columns)"))

end Row

namespace Value

/-! ## Reading a value as a type -/

def mismatch (expected : String) (v : Value) : Error :=
  .session s!"Expected {expected}, got {v.diagnostic}"

def asInt : Value → Except Error Int
  | .int i => .ok i
  | v => .error (mismatch "Int" v)

/-- An integer in the signed 32-bit range. -/
def asInt32 : Value → Except Error Int
  | .int i =>
    if fitsSigned 32 i then .ok i
    else .error (.session s!"Integer {i} out of range for i32")
  | v => .error (mismatch "Int" v)

def asDouble : Value → Except Error Double
  | .double d => .ok d
  | .int i => .ok (.ofInt i)
  | v => .error (mismatch "Float" v)

def asBool : Value → Except Error Bool
  | .bool b => .ok b
  | .int i => .ok (i ≠ 0)
  | v => .error (mismatch "Bool" v)

def asString : Value → Except Error String
  | .string s => .ok s
  | v => .error (mismatch "String" v)

def asUuid : Value → Except Error Uuid
  | .uuid u => .ok u
  | .string s =>
    match Uuid.read? s with
    | some u => .ok u
    | none => .error (.session s!"Invalid UUID '{s}'")
  | v => .error (mismatch "Uuid" v)

def asDate : Value → Except Error Calendar.Date
  | .date d => .ok d
  | v => .error (mismatch "Date" v)

/-- Reads a value that may be null. -/
def asOption {α : Type} (read : Value → Except Error α) : Value → Except Error (Option α)
  | .null => .ok none
  | v => (read v).map some

end Value

end PathQuery
