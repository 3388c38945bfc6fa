import PathQuery.Json.Basic
import PathQuery.Parameter
import PathQuery.Text.Blank

/-!
# Settings

What a program may configure: whether it is being debugged, what it logs, the stem of its aliases,
the style of its placeholders, and anything else under names of its own.

A `SettingsCell` holds settings that are set once and for all. Reading it before, and setting it
again, are the two mistakes it knows.
-/

namespace PathQuery

namespace ParameterStyle

/-- The name of a style in configurations. -/
def name : ParameterStyle → String
  | .positional => "positional"
  | .numbered => "numbered"
  | .named => "named"

/-- The style of a name. -/
def ofName? (s : String) : Option ParameterStyle :=
  [positional, numbered, named].find? (·.name == s)

/-- The style of a name in letters of either case with white space around it. -/
def read? (s : String) : Option ParameterStyle := ofName? (Text.lowerAscii (Text.trim s))

theorem ofName?_name (s : ParameterStyle) : ofName? s.name = some s := by
  cases s <;> decide +kernel

end ParameterStyle

structure Settings where
  debug : Bool
  logLevel : String
  aliasStem : String
  parameterStyle : ParameterStyle
  /-- Further settings by their names. -/
  extra : Json.Members

namespace Settings

def default : Settings := ⟨true, "info", "hobj", .positional, .empty⟩

end Settings

/-! ## Settings that are set once -/

/-- Settings that may have been set. -/
structure SettingsCell where
  content : Option Settings

/-- What can go wrong with a cell. -/
inductive SettingsCell.Mistake
  | setTwice
  | readBeforeSet
deriving DecidableEq, Repr

namespace SettingsCell

def empty : SettingsCell := ⟨none⟩

def isSet (c : SettingsCell) : Bool := c.content.isSome

/-- Sets the settings of a cell that has none. -/
def set (c : SettingsCell) (s : Settings) : Except Mistake SettingsCell :=
  if c.isSet then .error .setTwice else .ok ⟨some s⟩

/-- The settings of a cell that has some. -/
def get (c : SettingsCell) : Except Mistake Settings :=
  match c.content with
  | some s => .ok s
  | none => .error .readBeforeSet

/-- The settings of a cell, or the default ones. -/
def getOrDefault (c : SettingsCell) : Settings := c.content.getD .default

end SettingsCell

end PathQuery
