import PathQuery.Proofs.Closed
import PathQuery.Proofs.Marks

/-!
# What moves a reference

A node is written through the aliases on its path, and a node on the path gains or loses its alias
only with its join type. The join type of an entity that was given none is read off its children, so
it can change when the entity gets a child, and the join type of any entity or collection can change
when it is set. Nothing else that an event does moves a reference (`reference_step`).

**Readings.** The children of an entity say how much was read through it: nothing, its identifier
alone, or something else. Only in the second case is it not joined. Children are added and never
taken away, so the reading of an entity only goes up (`Extends.reading_le`), and its join type goes
from an inner join to none and back once, at most.

Main statement: `movesForReason`.
-/

namespace PathQuery

namespace Graph

variable {g g' : Graph} {n : Node} {a i k : Nat}

/-! ## Aliases on a path -/

/-- A new node that is no child of an entity does not disturb it. -/
theorem AppendsTo.not_disturbs (h : g.AppendsTo g' n) (hn : n.parent ≠ some a) :
    ¬ g.Disturbs g' a := by
  intro hd
  obtain ⟨m, -, -, -, hchildren⟩ := hd
  rw [h.children_eq hn] at hchildren
  rcases hchildren with ⟨c, hone, -, hother⟩ | ⟨hnone, c, hone, -⟩
  · exact hother hone
  · rw [hnone] at hone
    cases hone

/-- Setting the join type of one node leaves that of every other node as it is. -/
theorem joinType_setJoin_of_ne (g : Graph) (type : Join) (hne : k ≠ a) :
    (g.setJoin k type).joinType a = g.joinType a := by
  have hnode : (g.setJoin k type).node? a = g.node? a := by
    rw [node?_setJoin]
    cases g.node? a <;> simp [hne]
  have hkey : ∀ m, (g.setJoin k type).isForeignKey a m = g.isForeignKey a m :=
    (g.extends_setJoin k type).isForeignKey_eq (g.children_setJoin k type a)
  simp only [joinType, hnode, hkey]

theorem kind?_setJoin (g : Graph) (k a : Nat) (type : Join) :
    (g.setJoin k type).kind? a = g.kind? a := by
  rw [kind?, kind?, node?_setJoin]
  cases g.node? a with
  | none => rfl
  | some m => by_cases hk : k = a <;> simp [hk]

/-- Setting a join type concerns the alias of the node it is set for, and of that one only if it is
an entity or a collection. -/
theorem ownsAlias_setJoin (g : Graph) (type : Join)
    (h : k = a → g.kind? a ≠ some .entity ∧ g.kind? a ≠ some .collection) :
    (g.setJoin k type).ownsAlias a = g.ownsAlias a := by
  by_cases hk : k = a
  · obtain ⟨hentity, hcollection⟩ := h hk
    rw [ownsAlias, ownsAlias, kind?_setJoin]
    cases hkind : g.kind? a with
    | none => rfl
    | some kind => cases kind <;> simp_all
  · rw [ownsAlias, ownsAlias, kind?_setJoin, joinType_setJoin_of_ne g type hk]

/-! ## Readings -/

/-- How much was read through a node: nothing, its identifier alone, or something else. -/
def reading (g : Graph) (i : Nat) (n : Node) : Nat :=
  if g.children i = [] then 0 else if g.isForeignKey i n then 1 else 2

theorem isForeignKey_eq_false (n : Node) (h : g.children i = []) : g.isForeignKey i n = false := by
  rw [isForeignKey_eq, h]

/-- An entity without a join type of its own is not joined if its identifier alone was read. -/
theorem joinType_of_reading (hn : g.node? i = some n) (hk : n.kind = .entity) (hj : n.join = none) :
    g.joinType i = if g.reading i n = 1 then .none else .inner := by
  rw [joinType_of_entity hn hk hj, reading]
  by_cases hc : g.children i = []
  · simp [hc, isForeignKey_eq_false]
  · by_cases hf : g.isForeignKey i n = true <;> simp [hc, hf]

/-- A node that has children keeps them, so what is the only one was the only one. -/
theorem Extends.children_eq_singleton (h : g.Extends g') (hne : g.children i ≠ []) {c : Nat}
    (hc : g'.children i = [c]) : g.children i = [c] := by
  have hfilter := h.children_filter i
  rw [hc] at hfilter
  by_cases hlt : c < g.size
  · simpa [hlt] using hfilter.symm
  · exact absurd (by simpa [hlt] using hfilter.symm) hne

/-- The reading of a node only goes up. -/
theorem Extends.reading_le (h : g.Extends g') (i : Nat) (n : Node) :
    g.reading i n ≤ g'.reading i n := by
  by_cases hc : g.children i = []
  · simp [reading, hc]
  · have hc' : g'.children i ≠ [] := by
      intro hnil
      have hfilter := h.children_filter i
      rw [hnil] at hfilter
      exact hc hfilter.symm
    by_cases hf' : g'.isForeignKey i n = true
    · -- The only child there is was the only one before, and it is the same segment.
      obtain ⟨c, hone, -⟩ := isForeignKey_iff_children.1 hf'
      have hsame := h.isForeignKey_eq (hone.trans (h.children_eq_singleton hc hone).symm) n
      simp [reading, hc, hc', hf', ← hsame]
    · simp only [reading, hc, hc', hf', if_false]
      by_cases hf : g.isForeignKey i n = true <;> simp [hf]

/-- An event takes nothing away from a graph. -/
theorem Grows.extends {schema : Registry} {m : Option Mark} (h : g.Grows schema m g') :
    g.Extends g' := by
  cases h with
  | still | found => exact .refl g
  | root type name scope => exact extends_addRoot g type name scope
  | child append => exact append.extends
  | join node type => exact extends_setJoin g _ type

end Graph

namespace Stage

variable {s : Stage} {e : Event} {a i n : Nat}

/-! ## One event -/

/-- Whether an event makes a child of a node. -/
def MakesChild (s : Stage) (e : Event) (a : Nat) : Prop :=
  ∃ c, s.query.graph.size ≤ c ∧ (s.step e).query.graph.parent? c = some a

/-- Whether an event sets the join type of a node. -/
def SetsJoin (s : Stage) (e : Event) (a : Nat) : Prop :=
  ∃ p type, e = .call (.join p type) ∧ p.node = a ∧ (Query.join p type s.query).1 = .ok p

/-- Whether an event is a reason for what is written through a node to be written otherwise. -/
inductive Moves (s : Stage) (e : Event) (a : Nat) : Prop
  /-- An entity without a join type of its own gets a child. -/
  | child (kind : s.query.graph.kind? a = some .entity)
    (untyped : (s.query.graph.node? a).bind (·.join) = none) (makes : s.MakesChild e a)
  /-- An entity or a collection gets a join type. -/
  | join (kind : s.query.graph.kind? a = some .entity ∨ s.query.graph.kind? a = some .collection)
    (sets : s.SetsJoin e a)

/-- A new node moves what is written through its parent, if that is disturbed. -/
theorem moves_of_disturbs {m : Node}
    (happ : s.query.graph.AppendsTo (s.step e).query.graph m)
    (hd : s.query.graph.Disturbs (s.step e).query.graph a) : s.Moves e a := by
  have hparent : m.parent = some a := by
    by_contra hne
    exact happ.not_disturbs hne hd
  obtain ⟨k, hk, hkind, hjoin, -⟩ := hd
  refine .child (by simp [Graph.kind?, hk, hkind]) (by simp [hk, hjoin]) ⟨_, Nat.le_refl _, ?_⟩
  rw [Graph.parent?, happ.node?_size, Option.bind_some, hparent]

/-- A node is written as it was after a new node, unless there is a reason on its path. -/
theorem reference_of_appendsTo {m : Node}
    (happ : s.query.graph.AppendsTo (s.step e).query.graph m) (hn : n < s.query.graph.size)
    (hstill : ∀ a ∈ s.query.graph.lineage n, ¬ s.Moves e a) :
    (s.step e).query.graph.reference n = s.query.graph.reference n := by
  have hcont : s.query.graph.Continues (s.step e).query.graph := fun i hi => happ.node?_of_lt hi
  exact hcont.reference_eq hn fun a ha hd => hstill a ha (moves_of_disturbs happ hd)

/-- A join type that is set moves what is written through the node, if that can be joined. -/
theorem reference_of_setJoin {p : Placeholder} {type : Join}
    (hok : (Query.join p type s.query).1 = .ok p)
    (hgraph : (s.step (.call (.join p type))).query.graph = s.query.graph.setJoin p.node type)
    (hn : n < s.query.graph.size)
    (hstill : ∀ a ∈ s.query.graph.lineage n, ¬ s.Moves (.call (.join p type)) a) :
    (s.step (.call (.join p type))).query.graph.reference n = s.query.graph.reference n := by
  rw [hgraph]
  apply (s.query.graph.extends_setJoin p.node type).reference_eq hn
  intro a ha
  apply Graph.ownsAlias_setJoin
  intro heq
  have hsets : s.SetsJoin (.call (.join p type)) a := ⟨p, type, rfl, heq, hok⟩
  exact ⟨fun hk => hstill a ha (.join (Or.inl hk) hsets),
    fun hk => hstill a ha (.join (Or.inr hk) hsets)⟩

/-- **What moves a reference.** A node is written as it was if the event is no reason for a node on
its path. -/
theorem reference_step (hn : n < s.query.graph.size)
    (hstill : ∀ a ∈ s.query.graph.lineage n, ¬ s.Moves e a) :
    (s.step e).query.graph.reference n = s.query.graph.reference n := by
  by_cases hjoin : ∃ p type, e = .call (.join p type)
  · obtain ⟨p, type, rfl⟩ := hjoin
    rcases Query.join_cases p type s.query with ⟨-, hkeeps⟩ | ⟨hok, -, hgraph, -⟩
    · rw [query_step_join, hkeeps.graph]
    · rw [← query_step_join] at hgraph
      exact reference_of_setJoin hok hgraph hn hstill
  · generalize hm : s.mark? e = m
    have hgrows := s.grows_step e
    rw [hm] at hgrows
    generalize hg : (s.step e).query.graph = g' at hgrows
    cases hgrows with
    | still | found => rfl
    | root type name scope =>
      rw [← hg]
      exact reference_of_appendsTo (hg ▸ Graph.appendsTo_addRoot _ type name scope) hn hstill
    | child append =>
      rw [← hg]
      exact reference_of_appendsTo (hg ▸ append) hn hstill
    | join node type =>
      -- Only a call that sets a join type leaves such a mark.
      unfold mark? at hm
      split at hm
      · split at hm <;> cases hm
      · split at hm <;> cases hm
      · exact absurd ⟨_, _, rfl⟩ hjoin
      · cases hm

/-! ## Runs -/

theorem extends_step (s : Stage) (e : Event) :
    s.query.graph.Extends (s.step e).query.graph := (s.grows_step e).extends

theorem extends_run (s : Stage) (es : List Event) :
    s.query.graph.Extends (s.run es).query.graph := by
  induction es generalizing s with
  | nil => exact .refl _
  | cons e es ih => exact (s.extends_step e).trans (ih (s.step e))

/-- The join types that a node is rendered with in the course of a run, from its start on. -/
def joinTypes (s : Stage) (es : List Event) (i : Nat) : List Join :=
  (es.scanl step s).map fun t => t.query.graph.joinType i

theorem joinTypes_nil (s : Stage) (i : Nat) : s.joinTypes [] i = [s.query.graph.joinType i] := rfl

theorem joinTypes_cons (s : Stage) (e : Event) (es : List Event) (i : Nat) :
    s.joinTypes (e :: es) i = s.query.graph.joinType i :: (s.step e).joinTypes es i := by
  rw [joinTypes, List.scanl_cons, List.map_cons, joinTypes]

/-- Whether a list of join types is one that an entity goes through, from a reading on: joined while
nothing is read, not joined while its identifier alone is, and then joined again. -/
def Passes (r : Nat) (types : List Join) : Prop :=
  ∃ a b c, types = List.replicate a .inner ++ List.replicate b .none ++ List.replicate c .inner ∧
    (1 ≤ r → a = 0) ∧ (2 ≤ r → b = 0)

theorem passes_nil (r : Nat) : Passes r [] := ⟨0, 0, 0, rfl, fun _ => rfl, fun _ => rfl⟩

/-- A reading comes before those that are not lower. -/
theorem Passes.cons {r r' : Nat} {types : List Join} (h : Passes r' types) (hr : r ≤ r') :
    Passes r ((if r = 1 then .none else .inner) :: types) := by
  obtain ⟨a, b, c, rfl, ha, hb⟩ := h
  by_cases h0 : r = 0
  · exact ⟨a + 1, b, c, by simp [h0, List.replicate_succ], by omega, by omega⟩
  have ha := ha (by omega)
  by_cases h1 : r = 1
  · exact ⟨0, b + 1, c, by simp [h1, ha, List.replicate_succ], by omega, by omega⟩
  · have hb := hb (by omega)
    exact ⟨0, 0, c + 1, by simp [h1, ha, hb, List.replicate_succ], by omega, by omega⟩

/-- A join type that is set is not taken back. -/
theorem untyped_of_run {m : Node} {es : List Event} (hm : s.query.graph.node? i = some m)
    (huntyped : ((s.run es).query.graph.node? i).bind (·.join) = none) : m.join = none := by
  obtain ⟨j, hj, hset⟩ := (s.extends_run es).node hm
  rw [hj] at huntyped
  have hnone : j = none := huntyped
  by_contra hne
  have hsome := hset (Option.isSome_iff_ne_none.2 hne)
  rw [hnone] at hsome
  cases hsome

/-- The join types of an entity that is given none follow its readings. -/
theorem passes_joinTypes {m : Node} (es : List Event) (hm : s.query.graph.node? i = some m)
    (hk : m.kind = .entity)
    (huntyped : ((s.run es).query.graph.node? i).bind (·.join) = none) :
    Passes (s.query.graph.reading i m) (s.joinTypes es i) := by
  have htype := Graph.joinType_of_reading hm hk (untyped_of_run hm huntyped)
  induction es generalizing s m with
  | nil =>
    rw [joinTypes_nil, htype]
    exact (passes_nil _).cons (Nat.le_refl _)
  | cons e es ih =>
    obtain ⟨j, hnext, -⟩ := (s.extends_step e).node hm
    have hlater := ih hnext hk huntyped
      (Graph.joinType_of_reading hnext hk (untyped_of_run hnext huntyped))
    rw [joinTypes_cons, htype]
    exact hlater.cons ((s.extends_step e).reading_le i m)

/-- What moves references and join types from a stage on. -/
structure MovesForReason (s : Stage) : Prop where
  /-- A node is written otherwise after an event only if the event is a reason for some node on the
  path of the node. -/
  reference : ∀ e n, n < s.query.graph.size →
    (s.step e).query.graph.reference n ≠ s.query.graph.reference n →
      ∃ a ∈ s.query.graph.lineage n, s.Moves e a
  /-- As long as an entity is given no join type, the join types that it is rendered with change at
  most twice: from an inner join to none, and from none to an inner join. -/
  joinTypes : ∀ es i, s.query.graph.kind? i = some .entity →
    ((s.run es).query.graph.node? i).bind (·.join) = none →
      ∃ a b c, s.joinTypes es i =
        List.replicate a .inner ++ List.replicate b .none ++ List.replicate c .inner

/-- **References move for a reason.** -/
theorem movesForReason (s : Stage) : s.MovesForReason where
  reference e n hn hne := by
    by_contra hnone
    push Not at hnone
    exact hne (reference_step hn hnone)
  joinTypes es i hkind huntyped := by
    obtain ⟨m, hm, hk⟩ := Option.map_eq_some_iff.1 hkind
    obtain ⟨a, b, c, htypes, -, -⟩ := passes_joinTypes es hm hk huntyped
    exact ⟨a, b, c, htypes⟩

/-- A town of which nothing is read at first, then its identifier, and then its name. -/
example :
    ((start Sample.registry .default).run
        [.call (.addFrom "Person"), .call (.access ⟨0, .root⟩ "town")]).joinTypes
      [.call .drain, .call (.access ⟨1, .entity⟩ "id"), .call (.access ⟨1, .entity⟩ "name")] 1 =
      [.inner, .inner, .none, .inner] := by
  decide +kernel

end Stage

end PathQuery
