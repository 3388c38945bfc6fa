import PathQuery.Alias
import PathQuery.Graph.Basic

/-!
# Growing a graph under a supply of aliases

An entity or a collection reserves its alias when it is made, so an alias never depends on what is
added later. A node that turns out not to be joined leaves its alias unused.

Main statement: `reach_eq_of_child?`, that reaching a child twice makes it once.
-/

namespace PathQuery.Graph

/-- The alias that a child of a kind reserves from a supply. -/
def reserved (aliases : AliasSupply) (kind : NodeKind) : Option String :=
  if kind.reservesAlias then some aliases.next else none

/-- The supply after a child of a kind has reserved its alias. -/
def afterReserving (aliases : AliasSupply) (kind : NodeKind) : AliasSupply :=
  if kind.reservesAlias then aliases.advance else aliases

/-- The child of a node at a segment for a scope, made from a description if it is missing, with
the graph and the supply of aliases after it. -/
def reach (g : Graph) (aliases : AliasSupply) (parent : Nat) (segment : String)
    (spec : ChildSpec) (scope : Nat) : Nat × Graph × AliasSupply :=
  match g.child? parent segment scope with
  | some c => (c, g, aliases)
  | none =>
    (g.size, g.addChild parent segment spec (reserved aliases spec.kind) scope,
      afterReserving aliases spec.kind)

theorem reach_eq_of_child? {g : Graph} {aliases : AliasSupply} {parent : Nat} {segment : String}
    {spec : ChildSpec} {scope c : Nat} (h : g.child? parent segment scope = some c) :
    g.reach aliases parent segment spec scope = (c, g, aliases) := by
  rw [reach, h]

end PathQuery.Graph
