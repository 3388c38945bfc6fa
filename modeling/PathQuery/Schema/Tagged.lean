import PathQuery.Json.Record
import PathQuery.Schema.Basic

/-!
# Mapped types as JSON

A mapped type is stored as a record of its key, its name in texts, its kind, its identifier and
its properties. The type of a property is stored under its own name, with the type it refers to
as its one field.

**Reading.** The identifier may be missing from an object. In the type of a property, members that
are passed over have to be JSON values in full, since they may stand before the name that tells
what they belong to.

Main statement: `PropertyType.Shape.ofName?_name`, that the shapes can be told apart.
-/

namespace PathQuery

open Json (Form)

/-! ## Names -/

namespace TypeKind

def name : TypeKind → String
  | .entity => "Entity"
  | .embeddable => "Embeddable"

def ofName? (s : String) : Option TypeKind := [entity, embeddable].find? (·.name == s)

theorem ofName?_name (k : TypeKind) : ofName? k.name = some k := by cases k <;> decide +kernel

end TypeKind

namespace PropertyType

/-- What a property may be, without the type it refers to. -/
inductive Shape
  | scalar
  | reference
  | collection
  | embedded
deriving DecidableEq, Repr

namespace Shape

def name : Shape → String
  | .scalar => "Scalar"
  | .reference => "Reference"
  | .collection => "Collection"
  | .embedded => "Embedded"

/-- The name of the field that holds the type referred to. -/
def field : Shape → String
  | .scalar => "type_name"
  | .reference | .embedded => "target"
  | .collection => "element"

def ofName? (s : String) : Option Shape :=
  [scalar, reference, collection, embedded].find? (·.name == s)

/-- The property type of a shape that refers to a type. -/
def applied : Shape → String → PropertyType
  | .scalar => .scalar
  | .reference => .reference
  | .collection => .collection
  | .embedded => .embedded

theorem ofName?_name (s : Shape) : ofName? s.name = some s := by cases s <;> decide +kernel

end Shape

def shape : PropertyType → Shape
  | .scalar _ => .scalar
  | .reference _ => .reference
  | .collection _ => .collection
  | .embedded _ => .embedded

/-! ## Types of properties -/

/-- The stored form of a property type. -/
def toJson (t : PropertyType) : Json :=
  .object (Json.ofMembers [("type", .string t.shape.name), (t.shape.field, .string t.target)])

/-- Reads a property type inside a text that may nest `depth` levels deep. -/
def ofForm? (depth : Nat) : Form → Option PropertyType
  | .array [tag, content] => do
    let shape ← tag.text?.bind Shape.ofName?
    shape.applied <$> content.text?
  | .object members => do
    let members ← Form.named? members
    let shape ← (← Form.single? members "type").bind fun tag => tag.text?.bind Shape.ofName?
    let others := members.filter (·.1 != "type")
    let _ ← others.mapM fun m => m.2.toJson? (depth - 1)
    let content ← Form.single? members shape.field
    shape.applied <$> content.bind (·.text?)
  | _ => none

end PropertyType

/-! ## Properties -/

namespace Property

def toJson (p : Property) : Json :=
  .object (Json.ofMembers [("name", .string p.name), ("property_type", p.type.toJson)])

def ofForm? (depth : Nat) (form : Form) : Option Property := do
  match ← form.fields? ["name", "property_type"] with
  | [some name, some type] => return ⟨← name.text?, ← PropertyType.ofForm? (depth - 1) type⟩
  | _ => none

end Property

/-! ## Mapped types -/

namespace MappedType

def toJson (t : MappedType) : Json :=
  .object (Json.ofMembers
    [("type_name", .string t.name), ("entity_name", .string t.entityName),
      ("kind", .string t.kind.name),
      ("identifier", match t.identifier with
        | some name => .string name
        | none => .null),
      ("properties", .array (t.properties.map Property.toJson))])

/-- Reads an identifier, which may be missing or null. -/
def identifierOfForm? : Option Form → Option (Option String)
  | none | some .null => some none
  | some form => form.text?.map some

def ofForm? (depth : Nat) (form : Form) : Option MappedType := do
  match ← form.fields? ["type_name", "entity_name", "kind", "identifier", "properties"] with
  | [some name, some entityName, some kind, identifier, some (.array properties)] =>
    return ⟨← name.text?, ← entityName.text?, ← (kind.word? (depth - 1)).bind TypeKind.ofName?,
      ← identifierOfForm? identifier, ← properties.mapM (Property.ofForm? (depth - 2))⟩
  | _ => none

/-- Reads the text of a stored type. -/
def read? (s : String) : Option MappedType := (Form.read? s).bind (ofForm? Json.maxDepth)

end MappedType

end PathQuery
