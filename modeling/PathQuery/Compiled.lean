import PathQuery.Rendering

/-!
# Compiled queries

The text of a query in its five sections, the parameters in the order of their placeholders, and
what a row of its result holds, where that can be told from the select list.

Names of bound parameters are reserved, so that no generated name takes one of them.
-/

namespace PathQuery

/-- What each row of a result holds. -/
inductive ResultShape
  | entity (type : String)
  | scalar (type : String)
  | tuple (size : Nat)
deriving DecidableEq, Repr

structure Compiled where
  select : String
  source : String
  filter : String
  grouping : String
  ordering : String
  parameters : List Parameter
  shape : Option ResultShape

namespace Compiled

/-- The whole text: the sections that are not empty, with a space between each two. -/
def text (c : Compiled) : String :=
  " ".intercalate ([c.select, c.source, c.filter, c.grouping, c.ordering].filter (!·.isEmpty))

/-- The values of the parameters in the order of their placeholders. -/
def values (c : Compiled) : List Value := c.parameters.map (·.value)

end Compiled

namespace Draft

/-- What a row of the outermost scope holds. -/
def shape (d : Draft) : Option ResultShape :=
  match d.clauses[0]? with
  | none => none
  | some c =>
    match c.projections with
    | [] =>
      match d.scopes.roots 0 with
      | [root] => some (.entity (d.graph.target root))
      | roots => some (.tuple roots.length)
    | [.node i] =>
      if (d.graph.kind? i).any (·.isEntity) then some (.entity (d.graph.target i))
      else some (.scalar (d.graph.target i))
    | [.aggregate .count _ _] => some (.scalar "i64")
    | [.aggregate .avg _ _] => some (.scalar "f64")
    | [.aggregate _ _ i] => some (.scalar (d.graph.target i))
    | [.expression _] => none
    | items => some (.tuple items.length)

/-- The query in its text and parameters, or the first fault. -/
def compile (d : Draft) (style : ParameterStyle) : Except Error Compiled := do
  let sections := d.rendered
  let (select, l) ← sections.select.write? (.empty style d.bindings.names)
  let (source, l) ← sections.source.write? l
  let (filter, l) ← sections.filter.write? l
  let (grouping, l) ← sections.grouping.write? l
  let (ordering, l) ← sections.ordering.write? l
  return ⟨select, source, filter, grouping, ordering, l.parameters, d.shape⟩

end Draft

end PathQuery
