import PathQuery.Graph.Basic

/-!
# Walks through the graph

**Upwards** (`lineage`). A node, its parent, the parent of that, up to a root.

**Downwards** (`depthFirst`). A node, then the subtrees of its children in the order of their
creation. The walk keeps a list of nodes still to visit; every node is visited at most once, so
as many steps as there are nodes suffice.

Main statements: `lineage_of_parent` and `lineage_of_root`, which say what a lineage is without
the fuel it is computed with.
-/

namespace PathQuery.Graph

/-! ## Upwards -/

/-- At most `fuel` nodes on the way from a node to its root. -/
def ascend (g : Graph) : Nat → Nat → List Nat
  | 0, _ => []
  | fuel + 1, i => i :: match g.parent? i with
    | some p => ascend g fuel p
    | none => []

/-- A node and its ancestors, the root last. -/
def lineage (g : Graph) (i : Nat) : List Nat := g.ascend (i + 1) i

theorem ascend_of_lt {g : Graph} {i fuel : Nat} (h : i < fuel) : g.ascend fuel i = g.lineage i := by
  induction i using Nat.strongRecOn generalizing fuel with
  | ind i ih =>
    obtain ⟨k, rfl⟩ : ∃ k, fuel = k + 1 := ⟨fuel - 1, by omega⟩
    simp only [lineage, ascend]
    cases hp : g.parent? i with
    | none => rfl
    | some p =>
      have hpi : p < i := parent?_lt hp
      simp only [List.cons.injEq, true_and]
      rw [ih p hpi (by omega), ih p hpi hpi]

theorem lineage_of_parent {g : Graph} {i p : Nat} (h : g.parent? i = some p) :
    g.lineage i = i :: g.lineage p := by
  rw [lineage, ascend, h]
  simp only [List.cons.injEq, true_and]
  exact ascend_of_lt (parent?_lt h)

theorem lineage_of_root {g : Graph} {i : Nat} (h : g.parent? i = none) :
    g.lineage i = [i] := by
  rw [lineage, ascend, h]

/-- The root, entity or collection nearest to a node on the way to its root. -/
def nearestEntity (g : Graph) (i : Nat) : Nat :=
  match (g.lineage i).find? fun j => (g.kind? j).any (·.isEntity) with
  | some j => j
  | none => (g.lineage i).getLast?.getD i

/-! ## Downwards -/

/-- At most `fuel` steps of a walk with the given nodes still to visit. -/
def walk (g : Graph) : Nat → List Nat → List Nat
  | 0, _ => []
  | _ + 1, [] => []
  | fuel + 1, i :: rest => i :: walk g fuel (g.children i ++ rest)

/-- The tree under a node, each node before its children. -/
def depthFirst (g : Graph) (i : Nat) : List Nat := g.walk g.size [i]

end PathQuery.Graph
