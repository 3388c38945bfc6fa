import PathQuery.Compiled
import PathQuery.Graph.Growth
import PathQuery.Pending
import PathQuery.Settings.Basic

/-!
# Queries under construction

A `Query` is a draft with all that building it further needs: the supply of aliases, the pending
accesses, and the groups of conditions that are open.

**Building** (`Build`). An operation on a query gives a result or an error, and in both cases the
query after it. Operations are composed by `bind`, which stops at the first error; the query keeps
what was done up to there.

**Checks** (`Build.ask`). A question that an operation asks before it acts does not change the query.
-/

namespace PathQuery

structure Query extends Draft where
  settings : Settings
  aliases : AliasSupply
  pending : Pending
  /-- The open groups of the current scope, the innermost first. -/
  groups : List (List Condition)
  /-- The open groups of each enclosing scope, the nearest first. -/
  suspended : List (List (List Condition))

namespace Query

/-- A query with nothing in it. -/
def start (schema : Registry) (settings : Settings) : Query where
  schema := schema
  graph := .empty
  scopes := .initial
  clauses := [.empty]
  bindings := []
  settings := settings
  aliases := .ofStem settings.aliasStem
  pending := .none
  groups := []
  suspended := []

/-- The scope under construction. -/
def current (q : Query) : Nat := q.scopes.current

/-- The paths of the pending accesses, oldest first. -/
def pendingPaths (q : Query) : List String := q.pending.nodes.map q.graph.describe

/-- How large the query is, for readers. -/
def diagnostic (q : Query) : String :=
  "Query \x7b nodes: " ++ toString q.graph.size ++ ", scopes: " ++ toString q.scopes.size ++
    ", pending: " ++ toString q.pending.size ++ ", .. \x7d"

/-- The query with the clauses of the current scope changed. -/
def modifyClauses (q : Query) (f : Clauses → Clauses) : Query :=
  { q with clauses := q.clauses.modify q.current f }

/-! ## Checks -/

/-- The node of a placeholder, if the query has it and it is of the same kind. -/
def checkPlaceholder (q : Query) (p : Placeholder) : Except Error Nat :=
  if q.graph.kind? p.node = some p.kind then .ok p.node else .error .foreignHandle

/-- Whether a node may be named in the current scope, up to a join point if one is given. -/
def checkVisible (q : Query) (node : Nat) (bound : Option Nat) : Except Error Unit :=
  if q.scopes.isVisible q.graph node bound then .ok ()
  else
    let context := match bound with
      | some b => "of the join on '" ++ q.graph.describe b ++ "'"
      | none => "of the current query"
    .error (.outOfScope (q.graph.describe node) context)

/-- Whether a scope is directly inside the current one. -/
def checkSub (q : Query) (scope : Nat) : Except Error Unit :=
  if q.scopes.outer? scope = some q.current then .ok () else .error (.notDirectSub scope)

end Query

/-! ## Building -/

/-- An operation on a query, with its result or error and the query after it. -/
def Build (α : Type) : Type := Query → Except Error α × Query

namespace Build

variable {α β : Type}

def ret (a : α) : Build α := fun q => (.ok a, q)

/-- One operation, and another one with its result unless it failed. -/
def bind (x : Build α) (f : α → Build β) : Build β := fun q =>
  match x q with
  | (.ok a, q) => f a q
  | (.error e, q) => (.error e, q)

instance : Monad Build where
  pure := ret
  bind := bind

def fail (e : Error) : Build α := fun q => (.error e, q)

/-- A question about the query. -/
def ask (f : Query → Except Error α) : Build α := fun q => (f q, q)

/-- A change of the query that cannot fail. -/
def change (f : Query → Query) : Build Unit := fun q => (.ok (), f q)

theorem bind_of_ok {x : Build α} {f : α → Build β} {q q' : Query} {a : α}
    (h : x q = (.ok a, q')) : (x >>= f) q = f a q' := by
  show bind x f q = _
  rw [bind, h]

theorem bind_of_error {x : Build α} {f : α → Build β} {q q' : Query} {e : Error}
    (h : x q = (.error e, q')) : (x >>= f) q = (.error e, q') := by
  show bind x f q = _
  rw [bind, h]

/-- What holds between each query and what either of two operations makes of it holds between each
query and what both make of it. -/
theorem relates_bind {R : Query → Query → Prop} {x : Build α} {f : α → Build β}
    (trans : ∀ {q₁ q₂ q₃}, R q₁ q₂ → R q₂ q₃ → R q₁ q₃) (hx : ∀ q, R q (x q).2)
    (hf : ∀ a q, R q (f a q).2) (q : Query) : R q ((x >>= f) q).2 := by
  have hq := hx q
  cases hr : x q with
  | mk r q' =>
    rw [hr] at hq
    cases r with
    | ok a =>
      rw [bind_of_ok hr]
      exact trans hq (hf a q')
    | error e =>
      rw [bind_of_error hr]
      exact hq

end Build

end PathQuery
