import PathQuery.Proofs.Backward

/-!
# The bound of a join point

A condition of a join may name what is declared up to the join. The check walks the declaration
order of the scope until it meets the entity of the node or the join. Both stand in that order, and
each of them once, so the walk decides which of them is declared first (`Sound.isVisible_iff`).

The order grows with every root, child and sub-query, and a new root comes before the nodes that
are attached to the scope already. But what was there keeps its order among itself, so the answer of
the check is settled as soon as both nodes exist (`Sound.isVisible_eq`).

Main statement: `Reachable.fixesJoinPoints`.
-/

namespace PathQuery

namespace Scopes

variable {a b : Nat} {l : List Nat}

/-- In a list without duplicates the walk to `b` meets `b` and what stands before it. -/
theorem metBy_iff (hl : l.Nodup) (hb : b ∈ l) :
    metBy a b l = true ↔ a = b ∨ [a, b].Sublist l := by
  refine ⟨pair_sublist_of_metBy hb, fun h => ?_⟩
  induction l with
  | nil => cases hb
  | cons x xs ih =>
    obtain ⟨hx, hxs⟩ := List.nodup_cons.1 hl
    simp only [metBy, Bool.or_eq_true, beq_iff_eq, Bool.and_eq_true, bne_iff_ne]
    by_cases hxa : x = a
    · exact Or.inl hxa
    · have hne : x ≠ b := by
        rintro rfl
        rcases h with rfl | h
        · exact hxa rfl
        · cases h with
          | cons _ h => exact hx (h.subset (List.mem_cons_of_mem _ List.mem_cons_self))
          | cons_cons _ _ => exact hxa rfl
      have hb := (List.mem_cons.1 hb).resolve_left (Ne.symm hne)
      refine Or.inr ⟨hne, ih hxs hb (h.imp_right fun h => ?_)⟩
      cases h with
      | cons _ h => exact h
      | cons_cons _ _ => exact absurd rfl hxa

end Scopes

namespace Query

/-- Whether a node and a join point belong to the current scope, the node with its entity. -/
structure Compares (q : Query) (n b : Nat) : Prop where
  node : q.graph.scope? n = some q.current
  entity : q.graph.scope? (q.graph.nearestEntity n) = some q.current
  point : q.graph.isListed q.current b = true

variable {h h' : Nat → Handles} {q q' : Query} {a b c m n : Nat}

/-- An entity of the current scope is compared with a join point by itself. -/
theorem Compares.of_listed (ha : q.graph.isListed q.current a = true)
    (hb : q.graph.isListed q.current b = true) :
    q.graph.nearestEntity a = a ∧ q.Compares a b := by
  obtain ⟨n, hn, he, hs⟩ := Graph.isListed_iff.1 ha
  have hself : q.graph.nearestEntity a = a :=
    Graph.nearestEntity_of_isEntity (by simpa [Graph.kind?, hn] using he)
  have hscope := Graph.scope?_eq_some_iff.2 ⟨n, hn, hs⟩
  exact ⟨hself, hscope, hself.symm ▸ hscope, hb⟩

/-! ## The check -/

theorem Compares.isVisible_eq (hc : q.Compares n b) :
    q.scopes.isVisible q.graph n (some b) =
      Scopes.metBy (q.graph.nearestEntity n) b (q.scopes.declarationOrder q.graph q.current) := by
  have hnode : q.graph.scope? n = some q.scopes.current := hc.node
  have hentity : q.graph.scope? (q.graph.nearestEntity n) = some q.scopes.current := hc.entity
  simp [Scopes.isVisible, hnode, hentity, current]

theorem Sound.mem_order_of_isListed (hq : q.Sound h) (hb : q.graph.isListed q.current b = true) :
    b ∈ q.scopes.declarationOrder q.graph q.current :=
  ((hq.owned.declarationOrder_lists q.current).mem_iff b).2 (Graph.isListed_iff.1 hb)

/-- A node passes the check if its entity is declared no later than the join point. -/
theorem Sound.isVisible_iff (hq : q.Sound h) (hc : q.Compares n b) :
    q.scopes.isVisible q.graph n (some b) = true ↔
      q.NoLater q.current (q.graph.nearestEntity n) b := by
  rw [hc.isVisible_eq]
  exact Scopes.metBy_iff (hq.owned.declarationOrder_lists q.current).nodup
    (hq.mem_order_of_isListed hc.point)

/-! ## The order -/

/-- Of two entities of a scope exactly one is declared no later than the other. -/
theorem Sound.noLater_iff_not (hq : q.Sound h) (ha : q.graph.isListed q.current a = true)
    (hb : q.graph.isListed q.current b = true) (hne : a ≠ b) :
    q.NoLater q.current a b ↔ ¬ q.NoLater q.current b a := by
  have hnodup := (hq.owned.declarationOrder_lists q.current).nodup
  have ha := hq.mem_order_of_isListed ha
  have hb := hq.mem_order_of_isListed hb
  constructor
  · intro hab hba
    have hab := idxOf_lt_of_pair_sublist hnodup (hab.resolve_left hne)
    have hba := idxOf_lt_of_pair_sublist hnodup (hba.resolve_left hne.symm)
    exact absurd hab (Nat.lt_asymm hba)
  · intro hba
    rcases Nat.lt_trichotomy (List.idxOf a (q.scopes.declarationOrder q.graph q.current))
      (List.idxOf b (q.scopes.declarationOrder q.graph q.current)) with hlt | heq | hlt
    · exact Or.inr (pair_sublist_of_idxOf_lt hb hlt)
    · exact absurd ((List.idxOf_inj ha).1 heq) hne
    · exact absurd (Or.inr (pair_sublist_of_idxOf_lt ha hlt)) hba

/-! ## Growth -/

theorem Compares.lt_size (hc : q.Compares n b) : n < q.graph.size ∧ b < q.graph.size := by
  obtain ⟨m, hm, -⟩ := Graph.isListed_iff.1 hc.point
  exact ⟨Graph.lt_size_of_scope? hc.node, Graph.lt_size_of_node? hm⟩

theorem Compares.extends (hc : q.Compares n b) (hext : q.Extends q')
    (hcur : q'.current = q.current) : q'.Compares n b where
  node := hcur ▸ hext.graph.scope? hc.node
  entity := by
    rw [hext.graph.nearestEntity_eq hc.lt_size.1, hcur]
    exact hext.graph.scope? hc.entity
  point := by
    rw [hcur, hext.graph.isListed_eq hc.lt_size.2]
    exact hc.point

/-- What is added between two checks does not change the answer. -/
theorem Sound.isVisible_eq (hq : q.Sound h) (hq' : q'.Sound h') (hext : q.Extends q')
    (hcur : q'.current = q.current) (hc : q.Compares n b) :
    q'.scopes.isVisible q'.graph n (some b) = q.scopes.isVisible q.graph n (some b) := by
  obtain ⟨hn, hb⟩ := hc.lt_size
  have hentity : q.graph.nearestEntity n < q.graph.size :=
    Nat.lt_of_le_of_lt (q.graph.nearestEntity_le n) hn
  rw [hc.isVisible_eq, (hc.extends hext hcur).isVisible_eq, hext.graph.nearestEntity_eq hn, hcur]
  exact hq.owned.metBy_eq hq'.owned hext.graph hentity hb q.current

end Query

/-! ## Runs -/

namespace Stage

/-- Whether the bound by join points is a total order that stays: what may be named in a condition
of a join, and what may not, is settled for the rest of the run. -/
structure FixesJoinPoints (s : Stage) : Prop where
  /-- A node may be named up to a join point if its entity is declared no later. -/
  visible_iff : ∀ n b, s.query.Compares n b →
    (s.query.scopes.isVisible s.query.graph n (some b) = true ↔
      s.query.NoLater s.query.current (s.query.graph.nearestEntity n) b)
  /-- Whenever the scope is current again, the answer is the same. -/
  permanent : ∀ es n b, s.query.Compares n b → (s.run es).query.current = s.query.current →
    (s.run es).query.scopes.isVisible (s.run es).query.graph n (some b) =
      s.query.scopes.isVisible s.query.graph n (some b)
  /-- Of two nodes with different entities exactly one may be named at the join of the other. -/
  total : ∀ m n a b, s.query.graph.nearestEntity m = a → s.query.graph.nearestEntity n = b →
    s.query.Compares m b → s.query.Compares n a → a ≠ b →
    s.query.scopes.isVisible s.query.graph m (some b) =
      !s.query.scopes.isVisible s.query.graph n (some a)
  /-- What may be named at a join may be named at every join at which that join itself may be. -/
  trans : ∀ n b c, s.query.Compares n b → s.query.graph.isListed s.query.current c = true →
    s.query.scopes.isVisible s.query.graph n (some b) = true →
    s.query.scopes.isVisible s.query.graph b (some c) = true →
    s.query.scopes.isVisible s.query.graph n (some c) = true

/-- **The bound of a join point is a permanent total order.** -/
theorem Reachable.fixesJoinPoints {s : Stage} (h : s.Reachable) : s.FixesJoinPoints where
  visible_iff n b hc := h.sound.query.isVisible_iff hc
  permanent es n b hc hcur := by
    have hfol := h.sound.run es
    exact h.sound.query.isVisible_eq hfol.sound.query hfol.kept.query hcur hc
  total m n a b ha hb hm hn hne := by
    have hq := h.sound.query
    rw [Bool.eq_iff_iff, Bool.not_eq_true', ← Bool.not_eq_true, hq.isVisible_iff hm,
      hq.isVisible_iff hn, ha, hb]
    exact hq.noLater_iff_not hn.point hm.point hne
  trans n b c hc hlist hnb hbc := by
    have hq := h.sound.query
    obtain ⟨hself, hc'⟩ := Query.Compares.of_listed hc.point hlist
    have hnc : s.query.Compares n c := ⟨hc.node, hc.entity, hlist⟩
    rw [hq.isVisible_iff hc] at hnb
    rw [hq.isVisible_iff hc', hself] at hbc
    exact (hq.isVisible_iff hnc).2 (Query.NoLater.trans hq hnb hbc)

/-- A sub-query that goes through a node outside, and then gets a root of its own. -/
def sampleAttached : Stage :=
  (start Sample.registry .default).run
    [.call (.addFrom "Person"), .enterSub, .call (.access ⟨0, .root⟩ "town"),
      .call (.addFrom "Car"), .call (.access ⟨2, .root⟩ "model")]

/-- The root that came later is declared before the attached node, so a condition of the join of
that node may name the root. -/
theorem sampleAttached_fixesJoinPoints : sampleAttached.Reachable ∧
    sampleAttached.query.scopes.declarationOrder sampleAttached.query.graph 1 = [2, 1] ∧
    sampleAttached.query.Compares 3 1 ∧ sampleAttached.FixesJoinPoints :=
  ⟨reachable_start _ _ _, by decide +kernel,
    ⟨by decide +kernel, by decide +kernel, by decide +kernel⟩,
    Reachable.fixesJoinPoints (reachable_start _ _ _)⟩

end Stage

end PathQuery
