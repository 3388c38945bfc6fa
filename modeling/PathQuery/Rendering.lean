import PathQuery.Clauses
import PathQuery.Schema.Registry
import PathQuery.Scope

/-!
# Rendering a query

A `Draft` is all that the text of a query depends on. Each scope is rendered to five sections:
select list, `from` list with its joins, `where`, `group by` and `order by`. A section that is
absent is the empty fragment. Sub-queries are rendered in the place where they are tested, so
slots stand in the order of the text.

**Joins.** The `from` list of a scope joins the nodes that the scope created and that own an alias,
in declaration order. A join whose parent belongs to an entity of another scope must have its type
set; without it the fragment is a fault.

**Depth.** Sub-queries are rendered with fuel, one unit per level. A scope inside another one has a
greater number, so the number of scopes is enough.
-/

namespace PathQuery

/-- What the text of a query depends on. -/
structure Draft where
  schema : Registry
  graph : Graph
  scopes : Scopes
  /-- The clauses of each scope, by its number. -/
  clauses : List Clauses
  bindings : Bindings

/-- The rendered sections of a scope. -/
structure Sections where
  select : Fragment
  source : Fragment
  filter : Fragment
  grouping : Fragment
  ordering : Fragment

namespace Sections

def toList (s : Sections) : List Fragment :=
  [s.select, s.source, s.filter, s.grouping, s.ordering]

/-- The sections that are present, with a space between each two. -/
def fragment (s : Sections) : Fragment :=
  Fragment.joined " " (s.toList.filter fun f => !f.isEmpty)

/-- A scope that cannot be rendered at all. -/
def fault (e : Error) : Sections := ⟨[.fault e], [], [], [], []⟩

end Sections

namespace Draft

/-! ## Conditions -/

/-- The word `not` in front of a negated keyword. -/
def negation (negated : Bool) (keyword : String) : String :=
  if negated then "not " ++ keyword else keyword

def operandFragment (d : Draft) (o : Operand Nat) : Fragment := o.fragment d.graph d.bindings

/-- A test, with its sub-query rendered by a given function. -/
def testFragment (d : Draft) (sub : Nat → Fragment) : Test → Fragment
  | .compare left op right =>
    d.operandFragment left ++ .text (" " ++ op.symbol ++ " ") :: d.operandFragment right
  | .between operand low high =>
    d.operandFragment operand ++ .text " between " :: d.operandFragment low ++
      .text " and " :: d.operandFragment high
  | .oneOf _ [] negated => [.text (if negated then "1=1" else "1=0")]
  | .oneOf operand candidates negated =>
    d.operandFragment operand ++ .text (" " ++ negation negated "in" ++ " (") ::
      Fragment.joined ", " (candidates.map d.operandFragment) ++ [.text ")"]
  | .inSub operand scope negated =>
    d.operandFragment operand ++ .text (" " ++ negation negated "in" ++ " (") ::
      sub scope ++ [.text ")"]
  | .hasRows scope negated =>
    .text (negation negated "exists" ++ " (") :: sub scope ++ [.text ")"]
  | .isNull operand negated =>
    d.operandFragment operand ++ [.text (if negated then " is not null" else " is null")]

/-- The conditions that apply, after a keyword; nothing when none does. -/
def conditionsFragment (d : Draft) (sub : Nat → Fragment) (keyword : String)
    (cs : List Condition) : Fragment :=
  match conjunction d.bindings cs with
  | [] => []
  | tokens => .text keyword :: tokens.flatMap (Token.fragment (d.testFragment sub))

/-! ## The select list -/

def projectionFragment (d : Draft) : Projection → Fragment
  | .node i => d.graph.nodeFragment i
  | .aggregate func distinct i =>
    (Expression.aggregate func distinct (.node i)).fragment d.graph d.bindings
  | .expression operand => d.operandFragment operand

def selectFragment (d : Draft) (scope : Nat) (c : Clauses) : Fragment :=
  match c.projections, c.distinct with
  | [], false => []
  | [], true =>
    .text "select distinct " ::
      Fragment.joined ", " ((d.scopes.roots scope).map d.graph.nodeFragment)
  | projections, distinct =>
    .text (if distinct then "select distinct " else "select ") ::
      Fragment.joined ", " (projections.map d.projectionFragment)

/-! ## The `from` list -/

/-- Whether a scope joins a node: it created the node, and the node is no root but owns an
alias. -/
def isJoined (d : Draft) (scope i : Nat) : Bool :=
  (d.graph.node? i).any (fun n => n.scope == scope && n.kind != .root) && d.graph.ownsAlias i

/-- Whether a join is left to its default although its parent belongs to an entity of another
scope. -/
def needsJoinType (d : Draft) (scope i : Nat) : Bool :=
  match d.graph.parent? i with
  | none => false
  | some p =>
    d.graph.scope? (d.graph.nearestEntity p) != some scope &&
      ((d.graph.node? i).bind (·.join)).isNone

/-- The join of a node with its conditions and a space in front, if the scope joins the node. -/
def joinFragment (d : Draft) (sub : Nat → Fragment) (scope : Nat) (c : Clauses) (i : Nat) :
    Fragment :=
  if !d.isJoined scope i then []
  else if d.needsJoinType scope i then [.fault (.joinTypeRequired (d.graph.describe i))]
  else match (d.graph.joinType i).keyword? with
    | none => []
    | some keyword =>
      .text (" " ++ keyword ++ " " ++ d.graph.joinPath i ++ " " ++ d.graph.reference i) ::
        d.conditionsFragment sub " with " (c.conditionsFor i)

/-- A `from` entry with the joins under it. -/
def rootFragment (d : Draft) (sub : Nat → Fragment) (scope : Nat) (c : Clauses) (root : Nat) :
    Fragment :=
  let type := d.graph.target root
  match d.schema.entityName? type with
  | none => [.fault (.unknownEntity type)]
  | some name =>
    .text (name ++ " " ++ d.graph.reference root) ::
      (d.graph.depthFirst root).tail.flatMap (d.joinFragment sub scope c)

def sourceFragment (d : Draft) (sub : Nat → Fragment) (scope : Nat) (c : Clauses) : Fragment :=
  match d.scopes.roots scope with
  | [] => [.fault .noRoots]
  | roots =>
    .text "from " :: Fragment.joined ", " (roots.map (d.rootFragment sub scope c)) ++
      ((d.scopes.attached scope).flatMap d.graph.depthFirst).flatMap
        (d.joinFragment sub scope c)

/-! ## Grouping and ordering -/

def groupingFragment (d : Draft) (c : Clauses) : Fragment :=
  match c.groupBy with
  | [] => []
  | items => .text "group by " :: Fragment.joined ", " (items.map d.operandFragment)

def orderingFragment (d : Draft) (c : Clauses) : Fragment :=
  match c.orderBy with
  | [] => []
  | items =>
    .text "order by " :: Fragment.joined ", " (items.map fun item =>
      d.operandFragment item.operand ++ [.text (" " ++ item.direction.keyword)])

/-! ## Scopes -/

/-- The sections of a scope, with sub-queries up to a depth. -/
def sections (d : Draft) : Nat → Nat → Sections
  | 0, scope => .fault (.circularSub scope)
  | fuel + 1, scope =>
    match d.clauses[scope]? with
    | none => .fault (.unknownScope scope)
    | some c =>
      let sub := fun inner => (sections d fuel inner).fragment
      { select := d.selectFragment scope c
        source := d.sourceFragment sub scope c
        filter := d.conditionsFragment sub "where " c.restrictions
        grouping := d.groupingFragment c
        ordering := d.orderingFragment c }

/-- The sections of the outermost scope. -/
def rendered (d : Draft) : Sections := d.sections (d.scopes.size + 1) 0

end Draft

end PathQuery
