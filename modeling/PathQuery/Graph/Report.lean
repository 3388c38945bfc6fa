import PathQuery.Graph.Reference

/-!
# Reports on nodes

All that can be told about a node, for readers of a graph.
-/

namespace PathQuery

structure NodeReport where
  index : Nat
  node : Node
  children : List Nat
  /-- The join type that the node is rendered with. -/
  join : Join
  ownsAlias : Bool
  ownAlias : Option String
  reference : String
  joinPath : String
  path : String
  nearestEntity : Nat
deriving DecidableEq, Repr

namespace Graph

/-- The report on a node of the graph. -/
def report (g : Graph) (i : Nat) : Except Error NodeReport :=
  match g.node? i with
  | none => .error (.missingNode i)
  | some n =>
    .ok ⟨i, n, g.children i, g.joinType i, g.ownsAlias i, g.alias? i, g.reference i,
      g.joinPath i, g.describe i, g.nearestEntity i⟩

/-- The tree under a node of the graph, each node before its children. -/
def subtree (g : Graph) (i : Nat) : Except Error (List Nat) :=
  if i < g.size then .ok (g.depthFirst i) else .error (.missingNode i)

end Graph

end PathQuery
