import PathQuery.Value.Basic

/-!
# Parameters

The values bound while a query is written, in the order of their placeholders.

**Placeholders** are `?`, `?1`, `?2`, … or `:name`, as the style says. Under the named style a
parameter that was bound by its user's name before is referred to again and not bound twice.

**Generated names** are `p1`, `p2`, … A number is skipped when its name is reserved or already
in the list, and no number is ever used twice. Among `n + 1` candidates one is not among `n`
names, which bounds the search.
-/

namespace PathQuery

/-- How placeholders are written. -/
inductive ParameterStyle
  | positional
  | numbered
  | named
deriving DecidableEq, Repr

/-- A bound parameter. -/
structure Parameter where
  name : String
  value : Value

/-- The parameters bound so far. -/
structure ParameterList where
  style : ParameterStyle
  /-- The parameters, each with whether its name was given by a user. -/
  entries : List (Parameter × Bool)
  /-- Names that no generated name may take. -/
  reserved : List String
  /-- The number that the next generated name is searched from. -/
  nextNumber : Nat

namespace ParameterList

def empty (style : ParameterStyle) (reserved : List String) : ParameterList :=
  ⟨style, [], reserved, 1⟩

/-- The parameters in the order of their placeholders. -/
def parameters (l : ParameterList) : List Parameter := l.entries.map (·.1)

def size (l : ParameterList) : Nat := l.entries.length

/-- The names that a generated name must differ from. -/
def taken (l : ParameterList) : List String := l.reserved ++ l.parameters.map (·.name)

/-- The generated name with a number. -/
def generated (n : Nat) : String := "p" ++ toString n

/-- The least number from `n` on, among `fuel + 1` candidates, whose name is free. -/
def freeNumber (taken : List String) : Nat → Nat → Nat
  | 0, n => n
  | fuel + 1, n => if taken.contains (generated n) then freeNumber taken fuel (n + 1) else n

/-- The number of the next generated name. -/
def freshNumber (l : ParameterList) : Nat := freeNumber l.taken l.taken.length l.nextNumber

/-- The placeholder of a parameter at a position, counted from one. -/
def placeholder (style : ParameterStyle) (position : Nat) (name : String) : String :=
  match style with
  | .positional => "?"
  | .numbered => "?" ++ toString position
  | .named => ":" ++ name

/-- Whether a user's name is bound already. -/
def isBound (l : ParameterList) (name : String) : Bool :=
  l.entries.any fun e => e.2 && e.1.name == name

/-- Binds a value under a user's name. -/
def pushNamed (l : ParameterList) (name : String) (value : Value) : String × ParameterList :=
  let mark := placeholder l.style (l.size + 1) name
  if l.style == .named && l.isBound name then (mark, l)
  else (mark, { l with entries := l.entries ++ [(⟨name, value⟩, true)] })

/-- Binds a value under a generated name. -/
def pushGenerated (l : ParameterList) (value : Value) : String × ParameterList :=
  let n := l.freshNumber
  (placeholder l.style (l.size + 1) (generated n),
    { l with entries := l.entries ++ [(⟨generated n, value⟩, false)], nextNumber := n + 1 })

/-- Binds a value under a user's name or, without one, a generated name. The result is the
placeholder and the list with the parameter. -/
def push (l : ParameterList) (name : Option String) (value : Value) : String × ParameterList :=
  match name with
  | some name => l.pushNamed name value
  | none => l.pushGenerated value

end ParameterList

/-! ## Bindings of named parameters -/

/-- The values set for named parameters, the latest first. -/
abbrev Bindings := List (String × Value)

namespace Bindings

/-- The value set last for a name. -/
def get? (b : Bindings) (name : String) : Option Value := List.lookup name b

def set (b : Bindings) (name : String) (value : Value) : Bindings := (name, value) :: b

def names (b : Bindings) : List String := List.map Prod.fst b

end Bindings

end PathQuery
