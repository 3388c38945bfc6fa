import PathQuery.Schema.Basic

/-!
# The registry of mapped types

The only thing a query knows about its domain; there is no other source of types. Registering a
type again replaces it.

**Properties by name.** Each registered type has an index from property names to positions. When
a name is declared more than once, its last declaration is the one indexed, while
`MappedType.find?` gives the first.

Main statement: `get?_register`, that registering changes what one name stands for and no other.
-/

namespace PathQuery

/-- Where a property lands. -/
structure Resolved where
  target : String
  isCollection : Bool
deriving DecidableEq, Repr

namespace MappedType

/-- The position of the last property of a name. -/
def indexOf? (t : MappedType) (name : String) : Option Nat :=
  (t.properties.zipIdx.reverse.find? fun p => p.1.name == name).map (·.2)

/-- The property that the index gives for a name. -/
def indexed? (t : MappedType) (name : String) : Option Property :=
  (t.indexOf? name).bind fun i => t.properties[i]?

end MappedType

structure Registry where
  types : List MappedType
deriving DecidableEq, Repr

namespace Registry

def empty : Registry := ⟨[]⟩

/-- The type registered under a name. -/
def get? (r : Registry) (name : String) : Option MappedType := r.types.find? (·.name == name)

/-- A list of types with one of them added at its end, or put in the place of its namesake. -/
def put (t : MappedType) : List MappedType → List MappedType
  | [] => [t]
  | u :: us => if u.name = t.name then t :: us else u :: put t us

/-- The registry with one more type, or with a type replaced. -/
def register (r : Registry) (t : MappedType) : Registry := ⟨put t r.types⟩

/-- The registry with the types registered one after the other. -/
def ofList (ts : List MappedType) : Registry := ts.foldl register empty

def size (r : Registry) : Nat := r.types.length

def isEntity (r : Registry) (name : String) : Bool :=
  (r.get? name).any (·.kind == .entity)

def isComposite (r : Registry) (name : String) : Bool :=
  (r.get? name).any (·.kind == .embeddable)

/-- Where a property of a type lands. -/
def resolve? (r : Registry) (owner property : String) : Option Resolved :=
  ((r.get? owner).bind (·.indexed? property)).map fun p =>
    ⟨p.type.target, p.type.isCollection⟩

/-- The name of an entity in the text of a query. -/
def entityName? (r : Registry) (name : String) : Option String :=
  ((r.get? name).filter (·.kind == .entity)).map (·.entityName)

/-- The identifier property of a type. -/
def identifier? (r : Registry) (name : String) : Option String :=
  (r.get? name).bind (·.identifier)

theorem get?_register (r : Registry) (t : MappedType) (name : String) :
    (r.register t).get? name = if t.name = name then some t else r.get? name := by
  simp only [register, get?]
  induction r.types with
  | nil => by_cases h : t.name = name <;> simp [put, h]
  | cons u us ih =>
    by_cases hu : u.name = t.name
    · by_cases h : t.name = name
      · simp [put, hu, h]
      · simp [put, hu, h]
    · by_cases hn : u.name = name
      · have h : t.name ≠ name := fun e => hu (hn.trans e.symm)
        simp [put, hn, h, Ne.symm h]
      · simp [put, hu, hn, ih]

end Registry

end PathQuery
