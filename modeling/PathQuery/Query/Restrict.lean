import PathQuery.Query.Access

/-!
# Restrictions, select list, grouping and ordering

A restriction starts with its *subject*, the operand on its left and the place it is for: the
`where` list, or the condition of a join. A test on the subject then puts it there; while a group
is open, what is for the `where` list goes into the innermost group instead.

**Conditions of a join** are accepted only for a node that was joined in the current scope and that
renders a join, and the nodes they name must be declared no later than the join.
-/

namespace PathQuery

/-- Where a restriction goes. -/
inductive Place
  | filter
  | join (node : Nat)
deriving DecidableEq, Repr

/-- The left side of a restriction and where it goes. -/
structure Subject where
  place : Place
  left : Operand Nat

namespace Query

/-! ## Adding conditions -/

/-- The query with a condition in the innermost group or, if none is open, in the `where` list. -/
def addFilter (q : Query) (c : Condition) : Query :=
  match q.groups with
  | [] => q.modifyClauses (·.addRestriction c)
  | group :: rest => { q with groups := (group ++ [c]) :: rest }

/-- The query with a condition in its place. -/
def addCondition (q : Query) (place : Place) (c : Condition) : Query :=
  match place with
  | .filter => q.addFilter c
  | .join node => q.modifyClauses (·.addJoinCondition node c)

/-- Adds a guarded test in its place. -/
def addTest (place : Place) (guard : Guard) (t : Test) : Build Unit :=
  .change (·.addCondition place (.test guard t))

/-! ## Subjects -/

/-- Starts a restriction of the `where` list on a node. -/
def filter (p : Placeholder) : Build Subject := do
  return ⟨.filter, .node (← capture "where" p)⟩

/-- Starts a restriction of the `where` list on an expression. -/
def filterExpression (e : Expression Nat) : Subject := ⟨.filter, .expression e⟩

/-- Whether a node can have conditions on its join here. -/
def checkJoined (q : Query) (node : Nat) : Except Error Unit :=
  if ((q.graph.node? node).bind (·.join)).isNone ∨ q.graph.scope? node ≠ some q.current then
    .error (.invalidJoin (q.graph.describe node)
      "with requires a node explicitly joined in this query")
  else if q.graph.joinType node = .none then
    .error (.invalidJoin (q.graph.describe node) "with requires a node that renders a join")
  else .ok ()

/-- Starts a condition of a join on a node. -/
def onJoin (join property : Placeholder) : Build Subject := do
  let node ← .ask (·.checkPlaceholder join)
  .ask (·.checkJoined node)
  let left ← capture "with" property
  .ask (·.checkVisible left (some node))
  return ⟨.join node, .node left⟩

/-! ## Tests on a subject -/

/-- The right side of a comparison with a property that was just accessed. -/
def captureRight (place : Place) (p : Placeholder) : Build Nat := do
  let right ← capture "comparison" p
  match place with
  | .filter => return right
  | .join node =>
    .ask (·.checkVisible right (some node))
    return right

/-- Compares a subject with an operand. -/
def compare (s : Subject) (guard : Guard) (op : Comparison) (right : Operand Nat) : Build Unit :=
  addTest s.place guard (.compare s.left op right)

/-- Compares a subject with a property that was just accessed. -/
def compareProperty (s : Subject) (guard : Guard) (op : Comparison) (p : Placeholder) :
    Build Unit := do
  let right ← captureRight s.place p
  compare s guard op (.node right)

def between (s : Subject) (guard : Guard) (low high : Value) : Build Unit :=
  addTest s.place guard (.between s.left (.value low) (.value high))

def oneOf (s : Subject) (guard : Guard) (values : List Value) (negated : Bool) : Build Unit :=
  addTest s.place guard (.oneOf s.left (values.map .value) negated)

/-- Tests whether the rows of a sub-query contain a subject. -/
def inSub (s : Subject) (guard : Guard) (scope : Nat) (negated : Bool) : Build Unit := do
  .ask (·.checkSub scope)
  addTest s.place guard (.inSub s.left scope negated)

def isNull (s : Subject) (guard : Guard) (negated : Bool) : Build Unit :=
  addTest s.place guard (.isNull s.left negated)

/-- Tests whether a sub-query has rows. -/
def hasRows (scope : Nat) (negated : Bool) : Build Unit := do
  .ask (·.checkSub scope)
  addTest .filter .always (.hasRows scope negated)

/-! ## Select list, grouping and ordering -/

def select (p : Placeholder) : Build Unit := do
  let node ← capture "select" p
  .change (·.modifyClauses (·.addProjection (.node node)))

def selectAggregate (func : Aggregate) (distinct : Bool) (p : Placeholder) : Build Unit := do
  let node ← capture "select" p
  .change (·.modifyClauses (·.addProjection (.aggregate func distinct node)))

def selectExpression (e : Expression Nat) : Build Unit :=
  .change (·.modifyClauses (·.addProjection (.expression (.expression e))))

/-- Selects distinct rows only. -/
def distinct : Build Unit := .change (·.modifyClauses (·.setDistinct true))

def groupBy (p : Placeholder) : Build Unit := do
  let node ← capture "group by" p
  .change (·.modifyClauses (·.addGroup (.node node)))

def groupByExpression (e : Expression Nat) : Build Unit :=
  .change (·.modifyClauses (·.addGroup (.expression e)))

def orderBy (p : Placeholder) (direction : Direction) : Build Unit := do
  let node ← capture "order by" p
  .change (·.modifyClauses (·.addOrder ⟨.node node, direction⟩))

def orderByExpression (e : Expression Nat) (direction : Direction) : Build Unit :=
  .change (·.modifyClauses (·.addOrder ⟨.expression e, direction⟩))

/-- Sets the value of a named parameter. It is read when the query is compiled, so it may be set
before or after the parameter is used. -/
def setParameter (name : String) (value : Value) : Build Unit :=
  .change fun q => { q with bindings := q.bindings.set name value }

end Query

end PathQuery
