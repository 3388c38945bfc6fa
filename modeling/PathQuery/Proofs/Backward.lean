import PathQuery.Proofs.Dangling

/-!
# Conditions of joins look back

The condition of a join is written with the join, so what it names has to be declared by then. Every
node that it captures, on the left of a test or as the right side of a comparison, is checked
against the join point. Its entity stands no later than the join when it is captured, and a
declaration order never changes, so it does at every later stage.

Expressions and sub-queries are not checked. A node that was captured before may stand in an
expression that is given to the condition of an earlier join (`expression_looks_ahead`).

Main statement: `Reachable.looksBack`.
-/

namespace PathQuery

/-! ## What a condition captures -/

namespace Condition

/-- The nodes that a condition captures: those that are operands by themselves. -/
def captured (c : Condition) : List Nat :=
  c.tests.flatMap fun t => t.operands.filterMap (·.node?)

/-- The nodes of a condition, however deep they stand in expressions. -/
def nodes (c : Condition) : List Nat := c.tests.flatMap fun t => t.operands.flatMap (·.nodes)

theorem mem_captured {c : Condition} {i : Nat} :
    i ∈ c.captured ↔ ∃ t ∈ c.tests, .node i ∈ t.operands := by
  simp [captured, Operand.node?_eq_some_iff]

end Condition

namespace Query

/-- Whether a scope declares an entity no later than another one. -/
def NoLater (q : Query) (s a b : Nat) : Prop :=
  a = b ∨ [a, b].Sublist (q.scopes.declarationOrder q.graph s)

instance (q : Query) (s a b : Nat) : Decidable (q.NoLater s a b) :=
  inferInstanceAs (Decidable (_ ∨ _))

/-- Whether all that a scope captures in the conditions of its joins is declared by then. -/
structure LooksBack (q : Query) (s : Nat) : Prop where
  /-- The entity of a captured node stands no later than the join, if the scope declares it. -/
  captured : ∀ b, ∀ x ∈ q.conditionsOn s b, ∀ i ∈ x.captured,
    q.graph.scope? (q.graph.nearestEntity i) = some s → q.NoLater s (q.graph.nearestEntity i) b
  /-- A captured node is written by an alias that is declared no later than the join or by a scope
  around, and never by one that the scope declares after the join. -/
  written : ∀ b, ∀ x ∈ q.conditionsOn s b, ∀ i ∈ x.captured, ∃ t a name,
    q.scopes.encloses t s = true ∧ a ∈ q.declared t ∧ q.graph.alias? a = some name ∧
      Headed name (q.graph.reference i) ∧ (t = s → q.NoLater s a b) ∧
      ¬ [b, a].Sublist (q.declared s)

variable {h : Nat → Handles} {q : Query} {s a b c i : Nat} {x : Condition}

/-! ## Positions -/

theorem NoLater.trans (hq : q.Sound h) (hab : q.NoLater s a b) (hbc : q.NoLater s b c) :
    q.NoLater s a c := by
  rcases hab with rfl | hab
  · exact hbc
  · rcases hbc with rfl | hbc
    · exact Or.inr hab
    · exact Or.inr (pair_sublist_trans (hq.owned.declarationOrder_lists s).nodup hab hbc)

/-- What stands no later than a join is not declared after it. -/
theorem NoLater.not_after (hq : q.Sound h) (hab : q.NoLater s a b) :
    ¬ [b, a].Sublist (q.declared s) := by
  intro hba
  have hnodup := (hq.owned.declarationOrder_lists s).nodup
  have hlt := idxOf_lt_of_pair_sublist hnodup (hba.trans List.filter_sublist)
  rcases hab with rfl | hab
  · exact absurd hlt (Nat.lt_irrefl _)
  · exact absurd (idxOf_lt_of_pair_sublist hnodup hab) (Nat.lt_asymm hlt)

theorem NoLater.mem_order (hab : q.NoLater s a b)
    (hb : b ∈ q.scopes.declarationOrder q.graph s) :
    a ∈ q.scopes.declarationOrder q.graph s := by
  rcases hab with rfl | hab
  · exact hb
  · exact hab.subset List.mem_cons_self

/-! ## Captured nodes -/

/-- A join that has conditions stands in the declaration order of its scope. -/
theorem Sound.mem_order_of_condition (hq : q.Sound h) (hx : x ∈ q.conditionsOn s b) :
    b ∈ q.scopes.declarationOrder q.graph s := by
  obtain ⟨n, hn, hs, he, -⟩ := hq.joins_of_condition hx
  exact ((hq.owned.declarationOrder_lists s).mem_iff b).2
    ⟨n, hn, NodeKind.isEntity_of_reservesAlias he, hs⟩

theorem Sound.sees_of_captured (hq : q.Sound h) (hx : x ∈ q.conditionsOn s b)
    (hi : i ∈ x.captured) : ∃ r, q.graph.scope? i = some r ∧ q.scopes.encloses r s = true := by
  obtain ⟨c, hc, hx⟩ := Draft.mem_conditionsOn.1 hx
  obtain ⟨t, ht, hop⟩ := Condition.mem_captured.1 hi
  exact hq.sees_of_captures ⟨c, hc, Or.inr ⟨x, Clauses.mem_conditions_of_join hx, t, ht, hop⟩⟩

theorem Sound.noLater_of_captured (hq : q.Sound h) (hx : x ∈ q.conditionsOn s b)
    (hi : i ∈ x.captured) (hs : q.graph.scope? (q.graph.nearestEntity i) = some s) :
    q.NoLater s (q.graph.nearestEntity i) b := by
  have hb := hq.mem_order_of_condition hx
  obtain ⟨c, hc, hx⟩ := Draft.mem_conditionsOn.1 hx
  obtain ⟨t, ht, hop⟩ := Condition.mem_captured.1 hi
  exact Scopes.pair_sublist_of_metBy hb (((hq.clauses hc).joins (b, x) hx).2 t ht i hop hs)

/-- Between an alias of the scope and a captured node below it there is the entity of the node. It
is of the scope too, and it stands between the alias and the join. -/
theorem Sound.noLater_of_head (hq : q.Sound h) (hx : x ∈ q.conditionsOn s b)
    (hi : i ∈ x.captured) (ha : a ∈ q.declared s) (hai : a ∈ q.graph.lineage i) :
    q.NoLater s a b := by
  have has := hq.scope?_of_declared ha
  have his : q.graph.scope? i = some s := by
    obtain ⟨r, hr, henc⟩ := hq.sees_of_captured hx hi
    rw [hr, Scopes.eq_of_encloses henc (hq.owned.encloses_of_mem_lineage hai has hr)]
  have hentity : (q.graph.kind? a).any (·.isEntity) = true := by
    obtain ⟨n, hn, he⟩ := Graph.isEntity_of_ownsAlias (List.mem_filter.1 ha).2
    simpa [Graph.kind?, hn] using he
  have hae := Graph.mem_lineage_nearestEntity hai hentity
  have hes := hq.owned.scope?_of_between hae (q.graph.nearestEntity_mem_lineage i) has his
  have hback := hq.noLater_of_captured hx hi hes
  by_cases hne : a = q.graph.nearestEntity i
  · rw [hne]
    exact hback
  · have he := hback.mem_order (hq.mem_order_of_condition hx)
    have hpair := (hq.owned.declarationOrder_lists s).sorted a _ (List.mem_filter.1 ha).1 he hae hne
    exact NoLater.trans hq (Or.inr hpair) hback

end Query

/-! ## Runs -/

namespace Stage

/-- **Conditions of joins look back.** -/
theorem Reachable.looksBack {s : Stage} (h : s.Reachable) (scope : Nat) :
    s.query.LooksBack scope where
  captured b x hx i hi hs := h.sound.query.noLater_of_captured hx hi hs
  written b x hx i hi := by
    have hq := h.sound.query
    obtain ⟨r, hr, henc⟩ := hq.sees_of_captured hx hi
    obtain ⟨t, a, name, ht, hai, ha, hname, hhead⟩ := hq.exists_declared_head hr henc
    refine ⟨t, a, name, ht, ha, hname, hhead, ?_, ?_⟩
    · rintro rfl
      exact hq.noLater_of_head hx hi ha hai
    · intro hba
      have has : a ∈ s.query.declared scope :=
        hba.subset (List.mem_cons_of_mem _ List.mem_cons_self)
      exact Query.NoLater.not_after hq (hq.noLater_of_head hx hi has hai) hba

/-- Two joins of one query, the first of them with a condition that compares its name with that of
the root. -/
def sampleJoins : Stage :=
  (start Sample.registry .default).run
    [.call (.addFrom "Person"), .call (.access ⟨0, .root⟩ "town"),
      .call (.join ⟨1, .entity⟩ .left), .call (.access ⟨1, .entity⟩ "name"),
      .enterComparison (.onJoin ⟨1, .entity⟩ ⟨2, .property⟩) .always .ne,
      .call (.access ⟨0, .root⟩ "name"), .leaveComparison (some ⟨3, .property⟩),
      .call (.access ⟨0, .root⟩ "cars"), .call (.join ⟨4, .collection⟩ .left)]

theorem sampleJoins_looksBack : sampleJoins.Reachable ∧
    (sampleJoins.query.conditionsOn 0 1).map (·.captured) = [[2, 3]] ∧
    sampleJoins.query.LooksBack 0 :=
  ⟨reachable_start _ _ _, by decide +kernel, Reachable.looksBack (reachable_start _ _ _) 0⟩

/-- An expression over a property of the second join is accepted for the condition of the first
one, and the text names an alias before it is declared. -/
theorem expression_looks_ahead : ∃ s : Stage, s.Reachable ∧
    s.query.compile.toOption.map (·.text) = some ("from Person hobj1 left join hobj1.town hobj2 " ++
      "with hobj2.name = lower(hobj3.model) left join hobj1.cars hobj3") ∧
    3 ∈ (s.query.conditionsOn 0 1).flatMap (·.nodes) ∧ s.query.graph.scope? 3 = some 0 ∧
    ¬ s.query.NoLater 0 (s.query.graph.nearestEntity 3) 1 := by
  refine ⟨_, reachable_start Sample.registry .default
    [.call (.addFrom "Person"), .call (.access ⟨0, .root⟩ "town"),
      .call (.join ⟨1, .entity⟩ .left), .call (.access ⟨0, .root⟩ "cars"),
      .call (.join ⟨2, .collection⟩ .left), .call (.access ⟨2, .collection⟩ "model"),
      .call (.operand ⟨3, .property⟩), .call (.access ⟨1, .entity⟩ "name"),
      .call (.restrict (.onJoin ⟨1, .entity⟩ ⟨4, .property⟩) .always
        (.compareExpression .eq (.call "lower" [.node 3])))], ?_⟩
  decide +kernel

end Stage

end PathQuery
