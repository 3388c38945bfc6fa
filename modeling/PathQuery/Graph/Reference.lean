import PathQuery.Error
import PathQuery.Graph.Traversal

/-!
# How a node is written

A node with an alias of its own is written by it, and every other node by what its parent is
written by, a point and its segment.

**Who owns an alias** (`ownsAlias`). A root does. An entity or a collection does unless its join
type is `none`. The join type of a node (`joinType`) is the one that was set; without one it is an
inner join, except that an entity whose only child is its identifier is not joined at all, since
the foreign key suffices.
-/

namespace PathQuery.Graph

/-- Whether the only child of a node is the identifier of its target type. -/
def isForeignKey (g : Graph) (i : Nat) (n : Node) : Bool :=
  match g.children i with
  | [c] => n.identifier.isSome && (g.node? c).map (·.segment) == n.identifier
  | _ => false

/-- The join type that a node is rendered with. -/
def joinType (g : Graph) (i : Nat) : Join :=
  match g.node? i with
  | none => .none
  | some n =>
    match n.kind with
    | .root | .composite | .property => .none
    | .collection => n.join.getD .inner
    | .entity => n.join.getD (if g.isForeignKey i n then .none else .inner)

/-- Whether a node is written by an alias of its own. -/
def ownsAlias (g : Graph) (i : Nat) : Bool :=
  match g.kind? i with
  | some .root => true
  | some .entity | some .collection => g.joinType i != .none
  | _ => false

/-- The alias that a node is written by, if it owns one. -/
def alias? (g : Graph) (i : Nat) : Option String :=
  if g.ownsAlias i then (g.node? i).bind (·.reservedAlias) else none

/-- The segment of a node. -/
def segment (g : Graph) (i : Nat) : String := ((g.node? i).map (·.segment)).getD ""

/-- The target type of a node. -/
def target (g : Graph) (i : Nat) : String := ((g.node? i).map (·.target)).getD ""

/-- What the first node of a lineage is written by. -/
def referenceAlong (g : Graph) : List Nat → String
  | [] => ""
  | i :: above =>
    match g.alias? i with
    | some name => name
    | none =>
      if above.isEmpty then g.segment i
      else g.referenceAlong above ++ "." ++ g.segment i

/-- What a node is written by. -/
def reference (g : Graph) (i : Nat) : String := g.referenceAlong (g.lineage i)

/-- The path that a join of the node starts from. -/
def joinPath (g : Graph) (i : Nat) : String :=
  match g.parent? i with
  | some p => g.reference p ++ "." ++ g.segment i
  | none => g.target i

/-- The type of the root and the segments that lead from it along a lineage. -/
def describeAlong (g : Graph) : List Nat → String
  | [] => ""
  | i :: above =>
    if above.isEmpty then g.target i else g.describeAlong above ++ "." ++ g.segment i

/-- The path of a node from the type of its root, for error messages. -/
def describe (g : Graph) (i : Nat) : String := g.describeAlong (g.lineage i)

/-! ## Join types that may be set -/

/-- Sets the join type of a node. A plain value cannot be joined, and a root is no join; on a
composite the setting has no effect on what is rendered. -/
def join (g : Graph) (i : Nat) (type : Join) : Except Error Graph :=
  match g.kind? i with
  | none => .error (.missingNode i)
  | some .property => .error (.joinOnScalar (g.describe i))
  | some .root => .error (.invalidJoin (g.describe i) "root entities are not joined")
  | some _ => .ok (g.setJoin i type)

end PathQuery.Graph
