import PathQuery.Error
import PathQuery.Json.Merge
import PathQuery.Json.Reader
import PathQuery.Settings.Basic
import PathQuery.Toml.Reader

/-!
# Configurations

A configuration is a TOML or a JSON text. What it says is laid over the default settings, so it
may say as little as it likes; keys that are no settings are passed over. The stem of aliases must
not be empty. A file that holds a configuration is read outside: either its text is given, or the
reason why it cannot be read.

Settings in turn may be overridden one by one from the surroundings of a program. An override
that makes no sense is ignored.
-/

namespace PathQuery.Settings

/-! ## Settings as JSON -/

/-- The names of the settings in configurations, in the order of the fields. -/
def fieldNames : List String := ["debug", "log_level", "alias_prefix", "parameter_style", "extra"]

def toJson (s : Settings) : Json :=
  .object (Json.ofMembers (fieldNames.zip
    [.bool s.debug, .string s.logLevel, .string s.aliasStem, .string s.parameterStyle.name,
      .object s.extra.list]))

/-- A style by its name, or as an object whose only member has its name and the value null. -/
def styleOfJson? : Json → Option ParameterStyle
  | .string s => ParameterStyle.ofName? s
  | .object [(name, .null)] => ParameterStyle.ofName? name
  | _ => none

/-- The settings of five values in the order of the fields. -/
def ofFields? : List Json → Option Settings
  | [.bool debug, .string logLevel, .string aliasStem, style, .object extra] =>
    (styleOfJson? style).map fun style => ⟨debug, logLevel, aliasStem, style, .collect extra⟩
  | _ => none

/-- Reads settings from an object, or from an array of the fields in order. -/
def ofJson? : Json → Option Settings
  | .array items => ofFields? items
  | .object members =>
    (fieldNames.mapM fun name => Json.lookup name members).bind ofFields?
  | _ => none

/-! ## Configurations -/

/-- The formats of configurations. -/
inductive Format
  | toml
  | json
deriving DecidableEq, Repr

def Format.name : Format → String
  | .toml => "TOML"
  | .json => "JSON"

/-- The value of a text in a format. -/
def Format.read? : Format → String → Option Json
  | .toml => Toml.read?
  | .json => Json.read?

/-- The default settings with a configuration laid over them. -/
def configured (format : Format) (config : Json) : Except Error Settings :=
  match ofJson? (Json.merge default.toJson config) with
  | none => .error (.configuration s!"Failed to deserialize settings from {format.name}")
  | some s =>
    if s.aliasStem.isEmpty then .error (.configuration "alias_prefix must not be empty") else .ok s

/-- The settings that the text of a configuration stands for. -/
def ofText (format : Format) (text : String) : Except Error Settings :=
  match format.read? text with
  | none => .error (.configuration s!"Failed to parse {format.name}")
  | some config => configured format config

/-- What reading a file gives: its text, or the reason why there is none to read. -/
inductive File
  | holding (text : String)
  | unreadable (path reason : String)

/-- The settings of a configuration in a file. -/
def ofFile (format : Format) : File → Except Error Settings
  | .holding text => ofText format text
  | .unreadable path reason =>
    .error (.configuration s!"Failed to read {format.name} file '{path}': {reason}")

/-! ## Overrides -/

/-- Settings given by the surroundings of a program, as texts. -/
structure Overrides where
  debug : Option String
  logLevel : Option String
  aliasStem : Option String
  parameterStyle : Option String

/-- Whether a text stands for yes, in letters of either case. -/
def isYes (s : String) : Bool := ["true", "1", "yes"].contains (Text.lowerAscii s)

/-- The settings with what is given in the place of what they had. A stem of nothing but white
space and an unknown style change nothing. -/
def override (s : Settings) (o : Overrides) : Settings where
  debug := (o.debug.map isYes).getD s.debug
  logLevel := o.logLevel.getD s.logLevel
  aliasStem := ((o.aliasStem.map Text.trim).filter (!·.isEmpty)).getD s.aliasStem
  parameterStyle := (o.parameterStyle.bind ParameterStyle.read?).getD s.parameterStyle
  extra := s.extra

end PathQuery.Settings
