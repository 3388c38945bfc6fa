import PathQuery.Proofs.Compilation
import PathQuery.Proofs.Dangling

/-!
# Nodes in expressions

An operand is checked when it is captured, and an expression over it is not checked again. A
program may keep the operand and give the expression to a scope that does not see the node, or to
another query: then a clause names a node from inside a sub-query, or one that there is not
(`expressions_escape`).

A stage is reached *in sight* if every expression was given to a scope that saw its nodes. What a
scope sees it sees for ever, so then no clause ever names a node that its scope does not see, and
the check for missing nodes never fails.

Main statement: `ReachableBy.namesInSight`.
-/

namespace PathQuery

/-! ## What the clauses of a scope hold -/

/-- The operands of all clauses, those of the conditions included. -/
def Clauses.operands (c : Clauses) : List (Operand Nat) :=
  c.items ++ c.conditions.flatMap fun x => x.tests.flatMap (·.operands)

namespace Query

/-- The operands that the clauses of a scope hold, whether they are rendered or not. -/
def operandsIn (q : Query) (s : Nat) : List (Operand Nat) :=
  ((q.clauses[s]?).map (·.operands)).getD []

/-- Whether the clauses of a scope name nothing but what the scope sees. -/
structure NamesInSight (q : Query) (s : Nat) : Prop where
  /-- Every node of an operand, however deep it stands, was created by the scope or by one around
  it. -/
  nodes : ∀ o ∈ q.operandsIn s, ∀ i ∈ o.nodes,
    ∃ r, q.graph.scope? i = some r ∧ q.scopes.encloses r s = true
  /-- It is written by an alias that the scope or one around it declares. -/
  written : ∀ o ∈ q.operandsIn s, ∀ i ∈ o.nodes, ∃ t a name, q.scopes.encloses t s = true ∧
    a ∈ q.declared t ∧ q.graph.alias? a = some name ∧ Headed name (q.graph.reference i)

variable {h : Nat → Handles} {q : Query} {s i : Nat} {o : Operand Nat}

theorem Sound.fits_of_mem_operandsIn (hq : q.Sound h) (ho : o ∈ q.operandsIn s) :
    o.Fits ⟨h s, q.graph, q.scopes, s⟩ := by
  rw [operandsIn] at ho
  cases hc : q.clauses[s]? with
  | none => simp [hc] at ho
  | some c =>
    have hfits := hq.clauses hc
    simp only [hc, Option.map_some, Option.getD_some, Clauses.operands, List.mem_append,
      List.mem_flatMap] at ho
    rcases ho with hitem | ⟨x, hx, t, ht, hop⟩
    · exact hfits.items o hitem
    · exact (hfits.conditions x hx t ht).1 o hop

end Query

/-! ## Expressions in sight -/

namespace Stage

variable {s s' : Stage} {scope i : Nat} {o : Operand Nat}

/-- The expressions over nodes that could be captured now, and all sub-queries. -/
def inSight (s : Stage) : Handles where
  expression e := ∀ i ∈ (Operand.expression e).nodes, s.query.checkVisible i none = .ok ()
  sub _ := True

instance (s : Stage) (e : Expression Nat) : Decidable (s.inSight.expression e) :=
  inferInstanceAs (Decidable (∀ i ∈ _, _ = _))

/-- The expressions over nodes that a scope sees, and all sub-queries. -/
def sight (s : Stage) (scope : Nat) : Handles where
  expression e := ∀ i ∈ (Operand.expression e).nodes,
    ∃ r, s.query.graph.scope? i = some r ∧ s.query.scopes.encloses r scope = true
  sub _ := True

theorem inSight_le (s : Stage) : s.inSight.Le (s.sight s.query.current) where
  expression he i hi := Query.sees_of_checkVisible (h := s.inSight) (he i hi)
  sub := id

/-- What a scope sees it sees for ever. -/
theorem sight_le (h : s.Extends s') (scope : Nat) : (s.sight scope).Le (s'.sight scope) where
  expression he i hi := by
    obtain ⟨r, hr, henc⟩ := he i hi
    exact ⟨r, h.query.graph.scope? hr, h.query.scopes.encloses henc⟩
  sub := id

theorem sound_of_inSight (h : s.ReachableBy inSight) : s.Sound s.sight :=
  h.sound sight inSight_le fun hext => sight_le hext

/-- The nodes of an operand that fits a scope are seen there. -/
theorem sees_of_fits (ho : o.Fits ⟨s.sight scope, s.query.graph, s.query.scopes, scope⟩)
    (hi : i ∈ o.nodes) :
    ∃ r, s.query.graph.scope? i = some r ∧ s.query.scopes.encloses r scope = true := by
  cases o with
  | node j =>
    obtain rfl : i = j := by simpa [Operand.mem_nodes, Operand.leaves] using hi
    exact ho
  | value v => simp [Operand.mem_nodes, Operand.leaves] at hi
  | parameter name => simp [Operand.mem_nodes, Operand.leaves] at hi
  | expression e => exact ho i hi

/-- A fault of an operand whose nodes exist is not that of a missing node. -/
theorem not_missing_of_operand {g : Graph} {b : Bindings} (hn : ∀ i ∈ o.nodes, i < g.size) :
    .fault (.missingNode i) ∉ o.fragment g b := by
  intro h
  obtain ⟨l, hl, hf⟩ := (Operand.mem_fragment rfl o).1 h
  cases l with
  | node j => exact Draft.not_mem_nodeFragment rfl (hn j (Operand.mem_nodes.2 hl)) hf
  | value v => simp [Leaf.fragment] at hf
  | parameter name =>
    rw [Leaf.fragment, Operand.fragment] at hf
    split at hf <;> simp at hf
  | raw text vs =>
    obtain ⟨-, he⟩ := fault_mem_rawFragment.1 hf
    cases he

/-- **Expressions in sight name nothing foreign.** -/
theorem ReachableBy.namesInSight (h : s.ReachableBy inSight) :
    (∀ scope, s.query.NamesInSight scope) ∧ ∀ i, s.query.compile ≠ .error (.missingNode i) := by
  have hs := sound_of_inSight h
  refine ⟨fun scope => ⟨fun o ho i hi => ?_, fun o ho i hi => ?_⟩, fun i hc => ?_⟩
  · exact sees_of_fits (hs.query.fits_of_mem_operandsIn ho) hi
  · obtain ⟨r, hr, henc⟩ := sees_of_fits (hs.query.fits_of_mem_operandsIn ho) hi
    obtain ⟨t, a, name, ht, -, ha, hname, hhead⟩ := hs.query.exists_declared_head hr henc
    exact ⟨t, a, name, ht, ha, hname, hhead⟩
  · rw [Query.compile] at hc
    split at hc
    · obtain ⟨scope, -, hb⟩ := (hs.query.mem_rendered rfl).1 (Draft.fault_of_compile hc)
      cases hb with
      | operand o ho hf =>
        refine not_missing_of_operand (fun j hj => ?_) hf
        obtain ⟨r, hr, -⟩ := sees_of_fits (hs.query.fits_of_shows ho) hj
        exact Graph.lt_size_of_scope? hr
      | noRoots _ heq => cases heq
      | untyped _ _ _ _ heq => cases heq
    · cases hc

/-- A sub-query with an expression over a node of its own and one of the root. -/
def sampleExpressions : Stage :=
  (start Sample.registry .default).run
    [.call (.addFrom "Person"), .call (.access ⟨0, .root⟩ "name"),
      .call (.operand ⟨1, .property⟩), .enterSub, .call (.addFrom "Car"),
      .call (.access ⟨2, .root⟩ "model"), .call (.operand ⟨3, .property⟩),
      .call (.selectExpression (.call "concat" [.node 3, .node 1])), .leaveSub true,
      .call (.hasRows 1 false)]

theorem sampleExpressions_inSight : sampleExpressions.ReachableBy inSight := by
  refine ⟨Sample.registry, .default, _, ?_, rfl⟩
  simp only [Given, Event.Within, Event.expressions, Event.subs, Call.expressions, Call.subs,
    List.not_mem_nil, false_implies, implies_true, true_and, and_true, List.mem_singleton,
    forall_eq]
  exact ⟨by decide +kernel, trivial⟩

theorem sampleExpressions_names : sampleExpressions.ReachableBy inSight ∧
    (sampleExpressions.query.operandsIn 1).flatMap (·.nodes) = [3, 1] ∧
    ∀ scope, sampleExpressions.query.NamesInSight scope :=
  ⟨sampleExpressions_inSight, by decide +kernel,
    (ReachableBy.namesInSight sampleExpressions_inSight).1⟩

/-- An operand of a sub-query that is kept and used outside of it names an alias that is not declared
there. A node of a larger query makes the text of a smaller one fail. -/
theorem expressions_escape :
    (∃ s : Stage, s.Reachable ∧
      s.query.compile.map (·.text) = .ok "select upper(hobj2.model) from Person hobj1" ∧
      2 ∈ (s.query.operandsIn 0).flatMap (·.nodes) ∧ s.query.graph.scope? 2 = some 1 ∧
      s.query.scopes.encloses 1 0 = false) ∧
    ∃ s : Stage, s.Reachable ∧ s.query.compile.map (·.text) = .error (.missingNode 1) := by
  refine ⟨⟨_, reachable_start Sample.registry .default
    [.call (.addFrom "Person"), .enterSub, .call (.addFrom "Car"),
      .call (.access ⟨1, .root⟩ "model"), .call (.operand ⟨2, .property⟩), .leaveSub true,
      .call (.selectExpression (.call "upper" [.node 2]))], ?_⟩,
    ⟨_, reachable_start Sample.registry .default
      [.call (.addFrom "Person"), .call (.selectExpression (.call "upper" [.node 1]))], ?_⟩⟩
  · decide +kernel
  · decide +kernel

end Stage

end PathQuery
