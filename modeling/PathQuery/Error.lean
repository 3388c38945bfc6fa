/-!
# Errors

Everything that can go wrong while a query is built, compiled, configured or run. Each constructor
is a cause and holds what its message names; `Error.message` has the wording.

The last four causes listed by `isConstruction` as exceptions come from the surroundings of a
query, all others from its construction.
-/

namespace PathQuery

inductive Error
  /-- An operation needs exactly one pending property access. -/
  | pendingAccess (operation : String) (found : Nat)
  /-- The handle given to an operation is not the one whose access is pending. -/
  | captureMismatch (operation pending given : String)
  /-- Accesses were left pending at the end of a query or sub-query. -/
  | danglingAccess (paths : List String)
  | joinOnScalar (path : String)
  | invalidJoin (path reason : String)
  /-- A join onto a node of an enclosing query must name its type. -/
  | joinTypeRequired (path : String)
  | outOfScope (path context : String)
  | unknownEntity (type : String)
  | unknownProperty (owner property : String)
  | propertyOnScalar (path : String)
  | unboundParameter (name : String)
  | invalidQuery (reason : String)
  /-- An operand names a node that the graph does not have. -/
  | missingNode (node : Nat)
  | configuration (reason : String)
  | session (reason : String)
  | noResult (text : String)
  | notUnique (text : String)
deriving DecidableEq, Repr

namespace Error

/-- The wording of an error. -/
def message : Error → String
  | .pendingAccess operation found =>
    s!"{operation} expects exactly one pending property access, found {found}"
  | .captureMismatch operation pending given =>
    s!"{operation} was given '{given}' but the pending access is '{pending}'"
  | .danglingAccess paths => "Unconsumed property access: " ++ ", ".intercalate paths
  | .joinOnScalar path => s!"Cannot join '{path}': it is a plain property"
  | .invalidJoin path reason => s!"Invalid join on '{path}': {reason}"
  | .joinTypeRequired path => s!"Join type required for '{path}'"
  | .outOfScope path context => s!"'{path}' is not in scope {context}"
  | .unknownEntity type => s!"Unknown entity type: {type}"
  | .unknownProperty owner property => s!"Unknown property '{property}' on {owner}"
  | .propertyOnScalar path => s!"Cannot access properties of plain property '{path}'"
  | .unboundParameter name => s!"Parameter '{name}' is not bound"
  | .invalidQuery reason => s!"Invalid query: {reason}"
  | .missingNode node => s!"No node {node} in this query"
  | .configuration reason => s!"Configuration error: {reason}"
  | .session reason => s!"Session error: {reason}"
  | .noResult text => s!"No result: {text}"
  | .notUnique text => s!"Non-unique result: {text}"

/-- Whether the error lies in the construction of a query. -/
def isConstruction : Error → Bool
  | .configuration _ | .session _ | .noResult _ | .notUnique _ => false
  | _ => true

/-! ## Causes with fixed wording -/

def foreignHandle : Error := .invalidQuery "placeholder does not belong to this query"

def notDirectSub (scope : Nat) : Error :=
  .invalidQuery s!"sub-query {scope} is not a direct sub-query of this scope"

def noRoots : Error := .invalidQuery "a query needs at least one from entry"

def noSubRoots : Error := .invalidQuery "a sub-query needs at least one from entry"

def unknownScope (scope : Nat) : Error := .invalidQuery s!"unknown scope {scope}"

def circularSub (scope : Nat) : Error := .invalidQuery s!"sub-query {scope} contains itself"

def markerCount (text : String) (markers values : Nat) : Error :=
  .invalidQuery s!"Raw expression '{text}' has {markers} markers but {values} values"

end Error

end PathQuery
