import Mathlib.Data.List.Basic
import PathQuery.Proofs.Canonical

/-!
# Addresses of nodes

Nodes are numbered in the order of their creation, so the number of a node depends on what was
accessed before it. Its *address* does not: it is the number of its root among the roots, and the
segments that lead to it from there.

A graph that grows keeps the addresses that it has. Where each node has at most one child at a
segment no two nodes have the same address, so the graph is a tree of prefixes.

Main statements: `address_of_root` and `address_of_parent`, and `Stage.Flat.distinct`, that an
address stands for one node in a query without sub-queries.
-/

namespace PathQuery

/-- A place in the trees under the roots of a query. -/
structure Address where
  /-- The number of the root, counted from zero. -/
  root : Nat
  /-- The segments from the root to the place. -/
  segments : List String
deriving DecidableEq, Repr

namespace Address

/-- The place at a segment under another one. -/
def child (a : Address) (segment : String) : Address := ⟨a.root, a.segments ++ [segment]⟩

theorem child_segments_ne_nil (a : Address) (segment : String) : (a.child segment).segments ≠ [] :=
  List.append_ne_nil_of_right_ne_nil _ (List.cons_ne_nil _ _)

theorem child_inj {a b : Address} {s t : String} : a.child s = b.child t ↔ a = b ∧ s = t := by
  cases a
  cases b
  simp [child, and_assoc]

end Address

namespace Graph

variable {g g' : Graph} {n : Node} {i j p : Nat}

/-- The number of roots before a node. -/
def rootNumber (g : Graph) (i : Nat) : Nat :=
  (List.range i).countP fun j => (g.parent? j).isNone

/-- The address of the first node of a lineage. -/
def addressAlong (g : Graph) : List Nat → Address
  | [] => ⟨0, []⟩
  | i :: above =>
    if above.isEmpty then ⟨g.rootNumber i, []⟩ else (g.addressAlong above).child (g.segment i)

def address (g : Graph) (i : Nat) : Address := g.addressAlong (g.lineage i)

/-- Whether each address stands for one node at most. -/
def Distinct (g : Graph) : Prop :=
  ∀ {i j}, i < g.size → j < g.size → g.address i = g.address j → i = j

theorem address_of_root (h : g.parent? i = none) : g.address i = ⟨g.rootNumber i, []⟩ := by
  rw [address, lineage_of_root h]
  rfl

theorem address_of_parent (h : g.parent? i = some p) :
    g.address i = (g.address p).child (g.segment i) := by
  have hne : (g.lineage p).isEmpty = false := List.isEmpty_eq_false_iff.2 (g.lineage_ne_nil p)
  rw [address, lineage_of_parent h, addressAlong, hne]
  rfl

/-- Only roots have an address without segments. -/
theorem parent?_eq_none_iff : g.parent? i = none ↔ (g.address i).segments = [] := by
  cases h : g.parent? i with
  | none => simp [address_of_root h]
  | some p => simp [address_of_parent h, Address.child_segments_ne_nil]

/-! ## Numbers of roots -/

theorem rootNumber_succ (g : Graph) (i : Nat) :
    g.rootNumber (i + 1) = g.rootNumber i + if (g.parent? i).isNone then 1 else 0 := by
  rw [rootNumber, List.range_succ, List.countP_append, List.countP_singleton]
  rfl

theorem rootNumber_mono (h : i ≤ j) : g.rootNumber i ≤ g.rootNumber j :=
  (List.range_sublist.2 h).countP_le

/-- The root before another one has a smaller number. -/
theorem rootNumber_lt (hi : g.parent? i = none) (h : i < j) : g.rootNumber i < g.rootNumber j := by
  have hsucc := g.rootNumber_succ i
  rw [hi, Option.isNone_none, if_pos rfl] at hsucc
  exact Nat.lt_of_lt_of_le (hsucc ▸ Nat.lt_succ_self _) (rootNumber_mono h)

theorem rootNumber_injective (hi : g.parent? i = none) (hj : g.parent? j = none)
    (h : g.rootNumber i = g.rootNumber j) : i = j := by
  rcases Nat.lt_trichotomy i j with hlt | heq | hlt
  · exact absurd h (Nat.ne_of_lt (rootNumber_lt hi hlt))
  · exact heq
  · exact absurd h.symm (Nat.ne_of_lt (rootNumber_lt hj hlt))

/-! ## Graphs that grow -/

namespace Extends

variable (h : g.Extends g')

include h

theorem segment_eq (hi : i < g.size) : g'.segment i = g.segment i := by
  obtain ⟨n, hn⟩ := exists_node?_of_lt hi
  obtain ⟨j, hj, -⟩ := h.node hn
  simp [segment, hn, hj]

theorem target_eq (hi : i < g.size) : g'.target i = g.target i := by
  obtain ⟨n, hn⟩ := exists_node?_of_lt hi
  obtain ⟨j, hj, -⟩ := h.node hn
  simp [target, hn, hj]

theorem rootNumber_eq (hi : i ≤ g.size) : g'.rootNumber i = g.rootNumber i := by
  refine List.countP_congr fun j hj => ?_
  rw [h.parent?_eq (Nat.lt_of_lt_of_le (List.mem_range.1 hj) hi)]

theorem address_eq (hi : i < g.size) : g'.address i = g.address i := by
  induction i using Nat.strongRecOn with
  | ind i ih =>
    have hsame := h.parent?_eq hi
    cases hp : g.parent? i with
    | none =>
      rw [hp] at hsame
      rw [address_of_root hp, address_of_root hsame, h.rootNumber_eq (Nat.le_of_lt hi)]
    | some p =>
      rw [hp] at hsame
      rw [address_of_parent hp, address_of_parent hsame, h.segment_eq hi,
        ih p (parent?_lt hp) (Nat.lt_trans (parent?_lt hp) hi)]

end Extends

theorem AppendsTo.extends (h : g.AppendsTo g' n) : g.Extends g' := by
  refine ⟨fun {i m} hm => ⟨m.join, ?_, id⟩⟩
  rw [h.node?_of_lt (lt_size_of_node? hm), hm]

/-! ## Addresses and paths -/

/-- Nodes at one address are on one path. -/
theorem path_eq_of_address (h : g.address i = g.address j) : g.path i = g.path j := by
  induction i using Nat.strongRecOn generalizing j with
  | ind i ih =>
    cases hpi : g.parent? i with
    | none =>
      have hpj : g.parent? j = none := by
        rw [parent?_eq_none_iff, ← h, ← parent?_eq_none_iff, hpi]
      rw [address_of_root hpi, address_of_root hpj, Address.mk.injEq] at h
      rw [rootNumber_injective hpi hpj h.1]
    | some p =>
      cases hpj : g.parent? j with
      | none =>
        rw [parent?_eq_none_iff, ← h, ← parent?_eq_none_iff, hpi] at hpj
        cases hpj
      | some p' =>
        rw [address_of_parent hpi, address_of_parent hpj, Address.child_inj] at h
        rw [path_of_parent hpi, path_of_parent hpj, h.2, ih p (parent?_lt hpi) h.1]

end Graph

/-! ## Queries without sub-queries -/

namespace Stage

variable {s : Stage} {e : Event}

/-- Whether a stage has no scope but the outermost one. -/
def Flat (s : Stage) : Prop := s.query.scopes.size = 1

theorem flat_start (schema : Registry) (settings : Settings) : (start schema settings).Flat := rfl

/-- Only entering a sub-query opens a scope. -/
theorem Flat.step (hf : s.Flat) (h : s.Reachable) (he : e ≠ .enterSub) : (s.step e).Flat := by
  have hsize : (s.step e).query.scopes.size = s.query.scopes.size := by
    refine h.sound.step_relates (R := fun q q' => q'.scopes.size = q.scopes.size) (Event.within_any e)
      (fun _ => rfl) (fun h₁ h₂ => h₂.trans h₁) ?_ (fun _ => rfl) (fun henter => absurd henter he)
      fun _ _ _ => Scopes.size_leave _ _
    intro q q' _ hc
    cases hc with
    | root type known => simp [Scopes.addRoot]
    | child owner property r seen kind new resolved =>
      rw [Query.withChild]
      dsimp only
      split
      · rfl
      · simp [Scopes.attach]
    | add a fits =>
      rcases q.add_eq a with heq | ⟨_, _, _, -, -, heq⟩
      · rw [heq]
        rfl
      · rw [heq]
    | pending | bind | join => rfl
  exact hsize.trans hf

namespace Flat

variable (hf : s.Flat) (h : s.Reachable) {i : Nat}

include hf

theorem current_eq : s.query.current = 0 :=
  Nat.lt_one_iff.1 (hf ▸ s.query.scopes.current_lt)

include h

theorem scope?_eq (hi : i < s.query.graph.size) : s.query.graph.scope? i = some 0 := by
  obtain ⟨n, hn⟩ := Graph.exists_node?_of_lt hi
  have hscope : s.query.graph.scope? i = some n.scope := Graph.scope?_eq_some_iff.2 ⟨n, hn, rfl⟩
  have hlt := h.sound.query.owned.scope_lt hscope
  rw [hf, Nat.lt_one_iff] at hlt
  rw [hscope, hlt]

theorem sees (hi : i < s.query.graph.size) : s.query.Sees i :=
  ⟨0, hf.scope?_eq h hi, hf.current_eq ▸ Scopes.encloses_self _ _⟩

/-- **An address stands for one node.** -/
theorem distinct : s.query.graph.Distinct := fun hi hj haddress =>
  h.sound.query.eq_of_path h.canonical (hf.sees h hi) (hf.sees h hj)
    (Graph.path_eq_of_address haddress)

end Flat

end Stage

end PathQuery
