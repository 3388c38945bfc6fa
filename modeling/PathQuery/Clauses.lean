import PathQuery.Condition

/-!
# Clauses

What a scope declares besides its nodes: the select list, the conditions of its `where` and of its
joins, and the items of its grouping and its ordering, each in the order of the calls.
-/

namespace PathQuery

/-- One item of a select list. -/
inductive Projection
  | node (i : Nat)
  | aggregate (func : Aggregate) (distinct : Bool) (i : Nat)
  | expression (operand : Operand Nat)

inductive Direction
  | asc
  | desc
deriving DecidableEq, Repr

instance : Inhabited Direction := ⟨.asc⟩

def Direction.keyword : Direction → String
  | .asc => "asc"
  | .desc => "desc"

/-- One item of an ordering. -/
structure OrderItem where
  operand : Operand Nat
  direction : Direction

structure Clauses where
  projections : List Projection
  distinct : Bool
  /-- The conditions of the `where` list. -/
  restrictions : List Condition
  /-- The conditions of joins, each with the node that is joined. -/
  joinConditions : List (Nat × Condition)
  groupBy : List (Operand Nat)
  orderBy : List OrderItem

namespace Clauses

def empty : Clauses := ⟨[], false, [], [], [], []⟩

/-- The conditions of the join of a node. -/
def conditionsFor (c : Clauses) (node : Nat) : List Condition :=
  (c.joinConditions.filter (·.1 == node)).map (·.2)

/-! ## Additions -/

def addProjection (c : Clauses) (p : Projection) : Clauses :=
  { c with projections := c.projections ++ [p] }

def setDistinct (c : Clauses) (distinct : Bool) : Clauses := { c with distinct := distinct }

def addRestriction (c : Clauses) (condition : Condition) : Clauses :=
  { c with restrictions := c.restrictions ++ [condition] }

def addJoinCondition (c : Clauses) (node : Nat) (condition : Condition) : Clauses :=
  { c with joinConditions := c.joinConditions ++ [(node, condition)] }

def addGroup (c : Clauses) (operand : Operand Nat) : Clauses :=
  { c with groupBy := c.groupBy ++ [operand] }

def addOrder (c : Clauses) (item : OrderItem) : Clauses :=
  { c with orderBy := c.orderBy ++ [item] }

end Clauses

end PathQuery
