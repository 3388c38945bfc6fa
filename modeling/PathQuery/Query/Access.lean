import PathQuery.Query.Basic

/-!
# Roots, properties and joins

**Access** (`Query.access`). Accessing a property of a node gives the child at that segment which
an enclosing scope, or this one, has made first; only if there is none is a child made, for the
current scope. A child made under a node of another scope is attached to the current one.

**Capture** (`Query.capture`). An operation on a node consumes the one pending access, which must
be the access to that node. Roots are not accessed through anything and need none. The pending
accesses are used up even when their number is wrong.
-/

namespace PathQuery.Query

/-! ## Roots -/

/-- Adds a `from` entry of an entity to the current scope. -/
def addFrom (type : String) : Build Placeholder := fun q =>
  if q.schema.isEntity type then
    (.ok ⟨q.graph.size, .root⟩,
      { q with
        graph := q.graph.addRoot type q.aliases.next q.current
        aliases := q.aliases.advance
        scopes := q.scopes.addRoot q.graph.size })
  else (.error (.unknownEntity type), q)

/-! ## Properties -/

/-- What a child that lands on a resolved property is created as. -/
def childSpec (schema : Registry) (r : Resolved) : ChildSpec :=
  let kind : NodeKind :=
    if r.isCollection then .collection
    else if schema.isEntity r.target then .entity
    else if schema.isComposite r.target then .composite
    else .property
  ⟨r.target, kind, if kind.isEntity then schema.identifier? r.target else none⟩

/-- The query with a child of a node in the current scope. Its number is the size of the graph
before. -/
def withChild (q : Query) (owner : Nat) (segment : String) (spec : ChildSpec) : Query :=
  { q with
    graph := q.graph.addChild owner segment spec (Graph.reserved q.aliases spec.kind) q.current
    aliases := Graph.afterReserving q.aliases spec.kind
    scopes := if q.graph.scope? owner = some q.current then q.scopes
      else q.scopes.attach q.graph.size }

/-- The child of a node at a property, made if it is missing. -/
def child (owner : Nat) (property : String) : Build Nat := fun q =>
  match q.graph.findChild? owner property (q.scopes.encloses · q.current) with
  | some c => (.ok c, q)
  | none =>
    match q.schema.resolve? (q.graph.target owner) property with
    | some r => (.ok q.graph.size, q.withChild owner property (childSpec q.schema r))
    | none => (.error (.unknownProperty (q.graph.target owner) property), q)

/-- Whether properties can be accessed through a node. -/
def checkOwner (q : Query) (node : Nat) : Except Error Unit :=
  if q.graph.kind? node = some .property then .error (.propertyOnScalar (q.graph.describe node))
  else q.checkVisible node none

/-- Accesses a property of a node and leaves the access pending. -/
def access (owner : Placeholder) (property : String) : Build Placeholder := do
  let node ← .ask (·.checkPlaceholder owner)
  .ask (·.checkOwner node)
  let c ← child node property
  .change fun q => { q with pending := q.pending.record node c }
  .ask fun q => .ok ⟨c, (q.graph.kind? c).getD .property⟩

/-! ## Capture -/

/-- Uses up the pending accesses and gives their nodes, oldest first. -/
def drain : Build (List Nat) := fun q => (.ok q.pending.nodes, { q with pending := .none })

/-- Uses up the pending accesses, of which there must be exactly one. -/
def takePending (operation : String) : Build Nat := fun q =>
  (q.pending.single operation, { q with pending := .none })

/-- Consumes the pending access to a node, unless the node is a root. -/
def consume (operation : String) (p : Placeholder) (node : Nat) : Build Unit :=
  if p.kind = .root then return ()
  else do
    let pending ← takePending operation
    if pending = node then return ()
    else .ask fun q =>
      .error (.captureMismatch operation (q.graph.describe pending) (q.graph.describe node))

/-- The node of a placeholder for an operation that consumes its access. -/
def capture (operation : String) (p : Placeholder) : Build Nat := do
  let node ← .ask (·.checkPlaceholder p)
  consume operation p node
  .ask (·.checkVisible node none)
  return node

/-- Consumes an access for use in an expression. -/
def operand (p : Placeholder) : Build Nat := capture "expression" p

/-! ## Joins -/

/-- Sets the join type of a node of the current scope. -/
def joinNode (node : Nat) (type : Join) : Build Unit := fun q =>
  if q.graph.scope? node = some q.current then
    match q.graph.join node type with
    | .ok g => (.ok (), { q with graph := g })
    | .error e => (.error e, q)
  else
    (.error (.invalidJoin (q.graph.describe node) "the node belongs to an enclosing query"), q)

/-- Joins a node, and gives the same placeholder for further accesses. -/
def join (p : Placeholder) (type : Join) : Build Placeholder := do
  let node ← capture "join" p
  joinNode node type
  return p

end PathQuery.Query
