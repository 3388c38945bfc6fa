/-!
# The query graph

The nodes of a query and of all its sub-queries, in the order of their creation. A *root* is a
`from` entry; every other node is reached from its parent by one segment of a property path, and
belongs to the scope that created it. Nodes and scopes are named by their number, in the order of
their creation.

**Links.** Only the link to the parent is stored. A parent is created before its children, so
`parent_lt` holds of every graph and all walks towards a root end. The children of a node are the
nodes that name it as parent, and their order is that of creation.

**Growth.** A graph changes in three ways: `addRoot`, `addChild` and `setJoin`. The first two
append a node, the last one changes the join type of one node.
-/

namespace PathQuery

/-- What a node stands for. -/
inductive NodeKind
  /-- A `from` entry. -/
  | root
  /-- The entity at the end of a single-valued association. -/
  | entity
  /-- One element of a collection. -/
  | collection
  /-- An embedded part of its parent. -/
  | composite
  /-- A plain value. -/
  | property
deriving DecidableEq, Repr

namespace NodeKind

/-- Whether a node of the kind can own an alias. -/
def isEntity : NodeKind → Bool
  | .root | .entity | .collection => true
  | .composite | .property => false

/-- Whether properties can be accessed through a node of the kind. -/
def hasProperties : NodeKind → Bool
  | .property => false
  | _ => true

/-- Whether a node of the kind reserves an alias when it is created as a child. -/
def reservesAlias : NodeKind → Bool
  | .entity | .collection => true
  | _ => false

end NodeKind

/-- How a node is joined to its parent. -/
inductive Join
  | inner
  | left
  | right
  | fetch
  | leftFetch
  /-- Not at all: the node is written as a path from its parent. -/
  | none
deriving DecidableEq, Repr

namespace Join

/-- The words of a join, if it is one. -/
def keyword? : Join → Option String
  | .inner => some "join"
  | .left => some "left join"
  | .right => some "right join"
  | .fetch => some "join fetch"
  | .leftFetch => some "left join fetch"
  | .none => Option.none

end Join

structure Node where
  parent : Option Nat
  /-- The path segment from the parent; empty for a root. -/
  segment : String
  /-- The type that the node stands for one instance of. -/
  target : String
  kind : NodeKind
  /-- The join type that was set, if any. -/
  join : Option Join
  /-- The identifier property of the target type. -/
  identifier : Option String
  /-- The alias reserved for the node. -/
  reservedAlias : Option String
  /-- The scope that created the node. -/
  scope : Nat
deriving DecidableEq, Repr

/-- What a child is created as. -/
structure ChildSpec where
  target : String
  kind : NodeKind
  identifier : Option String
deriving DecidableEq, Repr

structure Graph where
  nodes : List Node
  /-- A parent is older than its children. -/
  parent_lt : ∀ (i : Nat) (n : Node) (p : Nat), nodes[i]? = some n → n.parent = some p → p < i
deriving Repr

namespace Graph

def empty : Graph := ⟨[], by simp⟩

def size (g : Graph) : Nat := g.nodes.length

/-- The node with an index. -/
def node? (g : Graph) (i : Nat) : Option Node := g.nodes[i]?

def parent? (g : Graph) (i : Nat) : Option Nat := (g.node? i).bind (·.parent)

def kind? (g : Graph) (i : Nat) : Option NodeKind := (g.node? i).map (·.kind)

/-- The scope that created a node. -/
def scope? (g : Graph) (i : Nat) : Option Nat := (g.node? i).map (·.scope)

theorem parent?_lt {g : Graph} {i p : Nat} (h : g.parent? i = some p) : p < i := by
  simp only [parent?, node?, Option.bind_eq_some_iff] at h
  obtain ⟨n, hn, hp⟩ := h
  exact g.parent_lt i n p hn hp

/-! ## Growth -/

private theorem parent_lt_append {ns : List Node} {n : Node}
    (hs : ∀ (i : Nat) (m : Node) (p : Nat), ns[i]? = some m → m.parent = some p → p < i)
    (hn : ∀ p, n.parent = some p → p < ns.length) :
    ∀ (i : Nat) (m : Node) (p : Nat),
      (ns ++ [n])[i]? = some m → m.parent = some p → p < i := by
  intro i m p hi hp
  rcases Nat.lt_or_ge i ns.length with h | h
  · rw [List.getElem?_append_left h] at hi
    exact hs i m p hi hp
  · rw [List.getElem?_append_right h] at hi
    have : i - ns.length = 0 := by
      rcases Nat.eq_zero_or_pos (i - ns.length) with h0 | h0
      · exact h0
      · rw [List.getElem?_eq_none (by simpa [Nat.succ_le_iff] using h0)] at hi
        cases hi
    rw [this] at hi
    cases hi
    exact Nat.lt_of_lt_of_le (hn p hp) h

/-- The graph with one more root. Its index is the size of the graph before. -/
def addRoot (g : Graph) (target name : String) (scope : Nat) : Graph where
  nodes := g.nodes ++ [⟨none, "", target, .root, none, none, some name, scope⟩]
  parent_lt := parent_lt_append g.parent_lt (by simp)

/-- The graph with one more child of an existing node. Its index is the size of the graph
before. A graph without the parent stays as it is. -/
def addChild (g : Graph) (parent : Nat) (segment : String) (spec : ChildSpec)
    (name : Option String) (scope : Nat) : Graph :=
  if h : parent < g.size then
    { nodes := g.nodes ++ [⟨some parent, segment, spec.target, spec.kind, none, spec.identifier,
        name, scope⟩]
      parent_lt := parent_lt_append g.parent_lt (by
        intro p hp
        cases hp
        exact h) }
  else g

/-- The graph with the join type of a node set. -/
def setJoin (g : Graph) (i : Nat) (join : Join) : Graph where
  nodes := g.nodes.modify i fun n => { n with join := some join }
  parent_lt := by
    intro j m p hj hp
    rw [List.getElem?_modify] at hj
    obtain ⟨n, hn, hm⟩ := Option.map_eq_some_iff.1 hj
    refine g.parent_lt j n p hn ?_
    split at hm <;> (subst hm; exact hp)

/-! ## Children -/

/-- The children of a node in the order of their creation. -/
def children (g : Graph) (i : Nat) : List Nat :=
  (g.nodes.zipIdx.filter fun m => m.1.parent == some i).map (·.2)

/-- The first child at a segment whose scope is one of those looked for. -/
def findChild? (g : Graph) (parent : Nat) (segment : String) (visible : Nat → Bool) :
    Option Nat :=
  (g.nodes.zipIdx.find? fun m =>
    m.1.parent == some parent && m.1.segment == segment && visible m.1.scope).map (·.2)

/-- The child at a segment that a given scope created. -/
def child? (g : Graph) (parent : Nat) (segment : String) (scope : Nat) : Option Nat :=
  g.findChild? parent segment (· == scope)

/-! ## Laws -/

@[simp] theorem size_addRoot (g : Graph) (target name : String) (scope : Nat) :
    (g.addRoot target name scope).size = g.size + 1 := by
  simp [addRoot, size]

@[simp] theorem size_setJoin (g : Graph) (i : Nat) (join : Join) :
    (g.setJoin i join).size = g.size := by
  simp [setJoin, size]

theorem size_addChild (g : Graph) (parent : Nat) (segment : String) (spec : ChildSpec)
    (name : Option String) (scope : Nat) (h : parent < g.size) :
    (g.addChild parent segment spec name scope).size = g.size + 1 := by
  rw [addChild, dif_pos h]
  simp [size]

theorem node?_eq_none_iff {g : Graph} {i : Nat} : g.node? i = none ↔ g.size ≤ i := by
  simp [node?, size]

theorem mem_children {g : Graph} {i j : Nat} : j ∈ g.children i ↔ g.parent? j = some i := by
  simp only [children, List.mem_map, List.mem_filter, beq_iff_eq, Prod.exists, exists_eq_right,
    List.mem_zipIdx_iff_getElem?, parent?, node?, Option.bind_eq_some_iff]

end Graph

end PathQuery
