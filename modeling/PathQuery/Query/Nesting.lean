import PathQuery.Query.Restrict

/-!
# Groups and sub-queries

Both enclose a body of further operations, so both are an operation before the body and one after
it. Whatever the body did or failed to do, the operation after it closes what the one before it
opened.

**Groups.** The restrictions that a body adds to the `where` list are collected and added as one
group. If the body failed or added none, nothing is added.

**Sub-queries.** The body works in a scope of its own, with no group open; the groups of the
enclosing scope are put aside and come back after it. An access left pending by the body is an
error, and so is a sub-query without a `from` entry.
-/

namespace PathQuery.Query

/-! ## Groups -/

/-- Opens a group. -/
def enterGroup (q : Query) : Query := { q with groups := [] :: q.groups }

/-- Closes the innermost group, and adds it where it belongs if its body succeeded. -/
def leaveGroup (junction : Junction) (succeeded : Bool) (q : Query) : Query :=
  match q.groups with
  | [] => q
  | members :: rest =>
    let q := { q with groups := rest }
    if succeeded ∧ members ≠ [] then q.addFilter (.group junction members) else q

/-- Groups the restrictions that a body adds. -/
def group (junction : Junction) (body : Build Unit) : Build Unit := fun q =>
  let (result, after) := body q.enterGroup
  (result, after.leaveGroup junction result.isOk)

/-- Groups restrictions of which one has to hold. -/
def any (body : Build Unit) : Build Unit := group .or body

/-- Groups restrictions all of which have to hold. -/
def all (body : Build Unit) : Build Unit := group .and body

/-! ## Sub-queries -/

/-- Opens a scope inside the current one. Its number is the number of scopes before. -/
def enterSub (q : Query) : Query :=
  { q with
    scopes := q.scopes.enter
    clauses := q.clauses ++ [.empty]
    groups := []
    suspended := q.groups :: q.suspended }

/-- Closes a scope. -/
def leaveSub (scope : Nat) (q : Query) : Query :=
  { q with
    scopes := q.scopes.leave scope
    groups := q.suspended.head?.getD []
    suspended := q.suspended.tail }

/-- What a sub-query must satisfy when its body has succeeded. -/
def finishSub (scope : Nat) : Build Nat := fun q =>
  if !q.pending.isEmpty then
    (.error (.danglingAccess q.pendingPaths), { q with pending := .none })
  else if (q.scopes.roots scope).isEmpty then (.error .noSubRoots, q)
  else (.ok scope, q)

/-- Builds a sub-query by a body, and gives its scope. -/
def sub (body : Build Unit) : Build Nat := fun q =>
  let scope := q.scopes.size
  match body q.enterSub with
  | (.error e, after) => (.error e, after.leaveSub scope)
  | (.ok _, after) => finishSub scope (after.leaveSub scope)

/-! ## Compiling -/

/-- The query in its text and parameters. Nothing may be left pending. -/
def compile (q : Query) : Except Error Compiled :=
  if q.pending.isEmpty then q.toDraft.compile q.settings.parameterStyle
  else .error (.danglingAccess q.pendingPaths)

end PathQuery.Query
