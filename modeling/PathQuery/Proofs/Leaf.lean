import PathQuery.Clauses

/-!
# What clauses are made of

An operand is a tree of calls and aggregates whose *leaves* are nodes, values, named parameters and
raw texts; all that can go wrong when it is rendered lies at a leaf. A condition is a tree of
groups whose leaves are tests, and a test holds operands and at most one sub-query. Here everything
that the clauses of a scope hold is listed without the trees above it.

Main statements: `Clauses.mem_items_add` and `Clauses.mem_conditions_add`, that an addition to the
clauses brings its own operands and conditions and no others.
-/

namespace PathQuery

/-! ## Leaves of operands -/

inductive Leaf (ν : Type)
  | node (n : ν)
  | value (v : Value)
  | parameter (name : String)
  | raw (text : String) (values : List Value)

mutual

def Operand.leaves {ν : Type} : Operand ν → List (Leaf ν)
  | .node n => [.node n]
  | .value v => [.value v]
  | .parameter name => [.parameter name]
  | .expression e => e.leaves

def Expression.leaves {ν : Type} : Expression ν → List (Leaf ν)
  | .call _ args => Operand.leavesOf args
  | .aggregate _ _ arg => arg.leaves
  | .raw text values => [.raw text values]
  | .literal v => [.value v]

def Operand.leavesOf {ν : Type} : List (Operand ν) → List (Leaf ν)
  | [] => []
  | a :: rest => a.leaves ++ Operand.leavesOf rest

end

/-- The node that a leaf is, if it is one. -/
def Leaf.node? {ν : Type} : Leaf ν → Option ν
  | .node n => some n
  | _ => none

/-- The nodes of an operand, however deep they stand in expressions. -/
def Operand.nodes {ν : Type} (o : Operand ν) : List ν := o.leaves.filterMap Leaf.node?

theorem Operand.mem_nodes {ν : Type} {o : Operand ν} {n : ν} :
    n ∈ o.nodes ↔ .node n ∈ o.leaves := by
  rw [nodes, List.mem_filterMap]
  constructor
  · rintro ⟨l, hl, hn⟩
    cases l with
    | node m =>
      cases hn
      exact hl
    | value | parameter | raw => cases hn
  · exact fun h => ⟨_, h, rfl⟩

theorem Operand.node?_eq_some_iff {ν : Type} {o : Operand ν} {n : ν} :
    o.node? = some n ↔ o = .node n := by
  cases o <;> simp [Operand.node?]

/-! ## Tests and conditions -/

namespace Test

def operands : Test → List (Operand Nat)
  | .compare left _ right => [left, right]
  | .between operand low high => [operand, low, high]
  | .oneOf operand candidates _ => operand :: candidates
  | .inSub operand _ _ | .isNull operand _ => [operand]
  | .hasRows _ _ => []

/-- The sub-query that a test asks about. -/
def subs : Test → List Nat
  | .inSub _ scope _ | .hasRows scope _ => [scope]
  | _ => []

end Test

mutual

/-- The tests of a condition, whether they apply or not. -/
def Condition.tests : Condition → List Test
  | .test _ t => [t]
  | .group _ members => Condition.testsOf members

def Condition.testsOf : List Condition → List Test
  | [] => []
  | c :: cs => c.tests ++ Condition.testsOf cs

end

theorem Condition.mem_testsOf {t : Test} {cs : List Condition} :
    t ∈ Condition.testsOf cs ↔ ∃ c ∈ cs, t ∈ c.tests := by
  induction cs with
  | nil => simp [Condition.testsOf]
  | cons c cs ih => simp [Condition.testsOf, ih]

/-! ## Clauses -/

def Projection.operand : Projection → Operand Nat
  | .node i | .aggregate _ _ i => .node i
  | .expression operand => operand

/-- What is added to the clauses of a scope. -/
inductive Addition
  | projection (p : Projection)
  | distinct
  | filter (c : Condition)
  | onJoin (node : Nat) (c : Condition)
  | grouping (operand : Operand Nat)
  | ordering (item : OrderItem)

namespace Addition

def conditions : Addition → List Condition
  | .filter c | .onJoin _ c => [c]
  | _ => []

/-- The operands of an addition that stand in no condition. -/
def items : Addition → List (Operand Nat)
  | .projection p => [p.operand]
  | .grouping operand => [operand]
  | .ordering item => [item.operand]
  | _ => []

end Addition

namespace Clauses

def add (c : Clauses) : Addition → Clauses
  | .projection p => c.addProjection p
  | .distinct => c.setDistinct true
  | .filter condition => c.addRestriction condition
  | .onJoin node condition => c.addJoinCondition node condition
  | .grouping operand => c.addGroup operand
  | .ordering item => c.addOrder item

/-- The operands of the select list, the grouping and the ordering. -/
def items (c : Clauses) : List (Operand Nat) :=
  c.projections.map (·.operand) ++ c.groupBy ++ c.orderBy.map (·.operand)

theorem mem_items {c : Clauses} {o : Operand Nat} : o ∈ c.items ↔
    (∃ x ∈ c.projections, x.operand = o) ∨ o ∈ c.groupBy ∨ ∃ x ∈ c.orderBy, x.operand = o := by
  simp [items]

/-- All conditions, those of the `where` list and those of joins. -/
def conditions (c : Clauses) : List Condition :=
  c.restrictions ++ c.joinConditions.map (·.2)

theorem mem_items_add {c : Clauses} {a : Addition} {o : Operand Nat} :
    o ∈ (c.add a).items ↔ o ∈ c.items ∨ o ∈ a.items := by
  cases a <;>
    simp [add, items, Addition.items, addProjection, setDistinct, addRestriction,
      addJoinCondition, addGroup, addOrder] <;> grind

theorem mem_conditions_add {c : Clauses} {a : Addition} {x : Condition} :
    x ∈ (c.add a).conditions ↔ x ∈ c.conditions ∨ x ∈ a.conditions := by
  cases a <;>
    simp [add, conditions, Addition.conditions, addProjection, setDistinct, addRestriction,
      addJoinCondition, addGroup, addOrder] <;> grind

/-- An addition leaves the conditions of a join first in their list. -/
theorem conditionsFor_prefix_add (c : Clauses) (a : Addition) (node : Nat) :
    c.conditionsFor node <+: (c.add a).conditionsFor node := by
  cases a with
  | onJoin other x =>
    rw [add, addJoinCondition, conditionsFor, conditionsFor, List.filter_append, List.map_append]
    exact List.prefix_append _ _
  | _ => exact List.prefix_rfl

end Clauses

end PathQuery
