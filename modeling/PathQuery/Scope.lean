import PathQuery.Graph.Traversal

/-!
# Scopes

A query and each of its sub-queries is a scope, numbered in the order in which they were opened;
the outermost query is scope 0. A scope has its own `from` entries, and the nodes that it created
directly under a node of an enclosing scope, which are *attached* to it.

**Visibility** goes outward, never inward: a scope sees what it and its enclosing scopes created.
Up to a join point `b` of the current scope, a node is visible only if the entity it belongs to
stands no later than `b` in the declaration order; entities of enclosing scopes always are.

**Declaration order.** Each root with the entities under it depth first, then the attached nodes
with theirs; entities of other scopes are left out.

Main statement: `enclosing_of_outer`, which says what encloses a scope without fuel.
-/

namespace PathQuery

/-- One level of a query. -/
structure Scope where
  /-- The scope that directly encloses this one. -/
  outer : Option Nat
  roots : List Nat
  attached : List Nat
deriving DecidableEq, Repr

/-- All levels of a query, one of which is under construction. -/
structure Scopes where
  levels : List Scope
  current : Nat
  current_lt : current < levels.length
  /-- An enclosing scope was opened before the scopes inside it. -/
  outer_lt : ∀ (i : Nat) (s : Scope) (p : Nat), levels[i]? = some s → s.outer = some p → p < i
  /-- Every scope but the outermost one is enclosed. -/
  outer_isSome : ∀ (i : Nat) (s : Scope), levels[i]? = some s → 0 < i → s.outer.isSome = true
deriving Repr

namespace Scopes

/-- The outermost scope alone. -/
def initial : Scopes where
  levels := [⟨none, [], []⟩]
  current := 0
  current_lt := by simp
  outer_lt := by
    intro i s p hi hp
    cases i with
    | zero => cases hi; cases hp
    | succ i => simp at hi
  outer_isSome := by
    intro i s hi h0
    cases i with
    | zero => exact absurd h0 (Nat.lt_irrefl 0)
    | succ i => simp at hi

def size (t : Scopes) : Nat := t.levels.length

/-- The scope with a number. -/
def scope? (t : Scopes) (i : Nat) : Option Scope := t.levels[i]?

/-- The scope that directly encloses a scope. -/
def outer? (t : Scopes) (i : Nat) : Option Nat := (t.scope? i).bind (·.outer)

/-- The `from` entries of a scope. -/
def roots (t : Scopes) (i : Nat) : List Nat := ((t.scope? i).map (·.roots)).getD []

/-- The nodes that a scope created under nodes of enclosing scopes. -/
def attached (t : Scopes) (i : Nat) : List Nat := ((t.scope? i).map (·.attached)).getD []

theorem outer?_lt {t : Scopes} {i p : Nat} (h : t.outer? i = some p) : p < i := by
  simp only [outer?, scope?, Option.bind_eq_some_iff] at h
  obtain ⟨s, hs, hp⟩ := h
  exact t.outer_lt i s p hs hp

/-! ## Opening and closing -/

private theorem getElem?_concat {levels : List Scope} {s m : Scope} {i : Nat}
    (h : (levels ++ [s])[i]? = some m) :
    levels[i]? = some m ∨ (i = levels.length ∧ m = s) := by
  rcases Nat.lt_or_ge i levels.length with hlt | hge
  · rw [List.getElem?_append_left hlt] at h
    exact Or.inl h
  · rw [List.getElem?_append_right hge] at h
    match hk : i - levels.length with
    | 0 =>
      rw [hk] at h
      cases h
      exact Or.inr ⟨by omega, rfl⟩
    | k + 1 =>
      rw [hk] at h
      simp at h

/-- Opens a scope inside the current one and makes it current. Its number is the number of
scopes before. -/
def enter (t : Scopes) : Scopes where
  levels := t.levels ++ [⟨some t.current, [], []⟩]
  current := t.levels.length
  current_lt := by simp
  outer_lt := by
    intro i s p hi hp
    rcases getElem?_concat hi with h | ⟨rfl, rfl⟩
    · exact t.outer_lt i s p h hp
    · cases hp
      exact t.current_lt
  outer_isSome := by
    intro i s hi h0
    rcases getElem?_concat hi with h | ⟨rfl, rfl⟩
    · exact t.outer_isSome i s h h0
    · rfl

/-- Makes the scope around a scope current again. -/
def leave (t : Scopes) (i : Nat) : Scopes :=
  match h : t.outer? i with
  | none => t
  | some p =>
    { t with
      current := p
      current_lt := by
        have hp := outer?_lt h
        have hi : i < t.levels.length := by
          simp only [outer?, scope?, Option.bind_eq_some_iff] at h
          obtain ⟨s, hs, _⟩ := h
          exact (List.getElem?_eq_some_iff.1 hs).1
        omega }

private theorem getElem?_modify_outer {levels : List Scope} {f : Scope → Scope} {k i : Nat}
    {m : Scope} (hf : ∀ s, (f s).outer = s.outer) (h : (levels.modify k f)[i]? = some m) :
    ∃ s, levels[i]? = some s ∧ s.outer = m.outer := by
  rw [List.getElem?_modify] at h
  obtain ⟨s, hs, hm⟩ := Option.map_eq_some_iff.1 h
  refine ⟨s, hs, ?_⟩
  split at hm
  · rw [← hm, hf]
  · rw [hm]

/-- The scopes with the current one changed in its lists of nodes. -/
def modifyCurrent (t : Scopes) (f : Scope → Scope) (hf : ∀ s, (f s).outer = s.outer) : Scopes where
  levels := t.levels.modify t.current f
  current := t.current
  current_lt := by simpa using t.current_lt
  outer_lt := by
    intro i m p hi hp
    obtain ⟨s, hs, ho⟩ := getElem?_modify_outer hf hi
    exact t.outer_lt i s p hs (ho.trans hp)
  outer_isSome := by
    intro i m hi h0
    obtain ⟨s, hs, ho⟩ := getElem?_modify_outer hf hi
    exact ho ▸ t.outer_isSome i s hs h0

/-- Adds a `from` entry to the current scope. -/
def addRoot (t : Scopes) (node : Nat) : Scopes :=
  t.modifyCurrent (fun s => { s with roots := s.roots ++ [node] }) fun _ => rfl

/-- Attaches a node to the current scope. -/
def attach (t : Scopes) (node : Nat) : Scopes :=
  t.modifyCurrent (fun s => { s with attached := s.attached ++ [node] }) fun _ => rfl

/-! ## Enclosing scopes -/

/-- At most `fuel` scopes on the way from a scope to the outermost one. -/
def ascend (t : Scopes) : Nat → Nat → List Nat
  | 0, _ => []
  | fuel + 1, i => i :: match t.outer? i with
    | some p => ascend t fuel p
    | none => []

/-- A scope and those that enclose it, the outermost one last. -/
def enclosing (t : Scopes) (i : Nat) : List Nat := t.ascend (i + 1) i

theorem ascend_of_lt {t : Scopes} {i fuel : Nat} (h : i < fuel) :
    t.ascend fuel i = t.enclosing i := by
  induction i using Nat.strongRecOn generalizing fuel with
  | ind i ih =>
    obtain ⟨k, rfl⟩ : ∃ k, fuel = k + 1 := ⟨fuel - 1, by omega⟩
    simp only [enclosing, ascend]
    cases hp : t.outer? i with
    | none => rfl
    | some p =>
      have hpi := outer?_lt hp
      simp only [List.cons.injEq, true_and]
      rw [ih p hpi (by omega), ih p hpi hpi]

theorem enclosing_of_outer {t : Scopes} {i p : Nat} (h : t.outer? i = some p) :
    t.enclosing i = i :: t.enclosing p := by
  rw [enclosing, ascend, h]
  simp only [List.cons.injEq, true_and]
  exact ascend_of_lt (outer?_lt h)

theorem enclosing_of_outermost {t : Scopes} {i : Nat} (h : t.outer? i = none) :
    t.enclosing i = [i] := by
  rw [enclosing, ascend, h]

/-- Whether a scope is another one or encloses it. -/
def encloses (t : Scopes) (outer inner : Nat) : Bool := (t.enclosing inner).contains outer

/-! ## Declaration and visibility -/

/-- The entities that a scope declares, in the order of their declaration. -/
def declarationOrder (t : Scopes) (g : Graph) (i : Nat) : List Nat :=
  ((t.roots i ++ t.attached i).flatMap g.depthFirst).filter fun j =>
    (g.node? j).any fun n => n.kind.isEntity && n.scope == i

/-- Whether a list has `a` at or before the first `b`. -/
def metBy (a b : Nat) : List Nat → Bool
  | [] => false
  | x :: xs => x == a || (x != b && metBy a b xs)

/-- Whether a node may be named in the current scope, up to a join point if one is given. -/
def isVisible (t : Scopes) (g : Graph) (node : Nat) (bound : Option Nat) : Bool :=
  match g.scope? node with
  | none => false
  | some s => t.encloses s t.current && match bound with
    | none => true
    | some b =>
      let entity := g.nearestEntity node
      g.scope? entity != some t.current || metBy entity b (t.declarationOrder g t.current)

end Scopes

end PathQuery
