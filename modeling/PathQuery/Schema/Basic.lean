/-!
# Mapped types

A type of the mapped domain is an entity, which queries can start from and join, or an embeddable
part of one. Its properties are plain values, references to an entity, collections of one, or
embedded parts; a path through a collection lands on one element of it.
-/

namespace PathQuery

inductive TypeKind
  | entity
  | embeddable
deriving DecidableEq, Repr

/-- What a property holds. -/
inductive PropertyType
  | scalar (typeName : String)
  | reference (target : String)
  | collection (element : String)
  | embedded (target : String)
deriving DecidableEq, Repr

namespace PropertyType

/-- The type that a path through the property lands on. -/
def target : PropertyType → String
  | .scalar name | .reference name | .collection name | .embedded name => name

def isCollection : PropertyType → Bool
  | .collection _ => true
  | _ => false

end PropertyType

structure Property where
  name : String
  type : PropertyType
deriving DecidableEq, Repr

/-- A mapped type. -/
structure MappedType where
  /-- The key under which the type is registered. -/
  name : String
  /-- The name written in the text of a query. -/
  entityName : String
  kind : TypeKind
  /-- The name of the identifier property, if there is one. -/
  identifier : Option String
  /-- The properties in the order of their declaration. -/
  properties : List Property
deriving DecidableEq, Repr

namespace MappedType

/-- An entity whose name in texts is its key. -/
def entity (name : String) (identifier : Option String) (properties : List Property) :
    MappedType :=
  ⟨name, name, .entity, identifier, properties⟩

def embeddable (name : String) (properties : List Property) : MappedType :=
  ⟨name, name, .embeddable, none, properties⟩

/-- The first property of a name. -/
def find? (t : MappedType) (name : String) : Option Property :=
  t.properties.find? (·.name == name)

end MappedType

end PathQuery
