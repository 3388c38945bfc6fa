import Mathlib.Data.List.Find
import Mathlib.Data.List.Sort
import PathQuery.Proofs.Declaration

/-!
# Declaration orders stay

A node that is added later stands in the walk under its parent, so it may come between nodes that
were there before, but it never changes their order: a declaration order is what it was, with new
nodes put in (`declarationOrder_filter`). So what stood no later than a join point does so for
ever (`metBy_eq`).

Main statements: `Owned.declarationOrder_filter` and `Owned.metBy_eq`.
-/

namespace PathQuery

/-! ## Orders -/

namespace Scopes

variable {a b c : Nat} {l : List Nat}

/-- Other numbers do not matter to which of two is met first. -/
theorem metBy_filter {p : Nat → Bool} (ha : p a = true) (hb : p b = true) (l : List Nat) :
    metBy a b (l.filter p) = metBy a b l := by
  induction l with
  | nil => rfl
  | cons x xs ih =>
    by_cases hx : p x = true
    · rw [List.filter_cons_of_pos hx, metBy, metBy, ih]
    · have hxa : x ≠ a := fun h => hx (h ▸ ha)
      have hxb : x ≠ b := fun h => hx (h ▸ hb)
      have hab : (x == a) = false ∧ (x != b) = true := by simp [hxa, hxb]
      rw [List.filter_cons_of_neg hx, ih, metBy, hab.1, hab.2, Bool.false_or, Bool.true_and]

/-- What is met by `b` is `b` or stands before it. -/
theorem pair_sublist_of_metBy (hb : b ∈ l) (h : metBy a b l = true) :
    a = b ∨ [a, b].Sublist l := by
  induction l with
  | nil => cases hb
  | cons x xs ih =>
    rw [metBy, Bool.or_eq_true, beq_iff_eq, Bool.and_eq_true, bne_iff_ne] at h
    rcases h with rfl | ⟨hne, h⟩
    · refine (List.mem_cons.1 hb).imp Eq.symm fun hb => ?_
      exact (List.singleton_sublist.2 hb).cons_cons x
    · have hb := (List.mem_cons.1 hb).resolve_left (Ne.symm hne)
      exact (ih hb h).imp_right fun hs => hs.cons x

end Scopes

section

variable {a b c : Nat} {l : List Nat}

/-- In a list without duplicates what stands before another element has the smaller index. -/
theorem idxOf_lt_of_pair_sublist (hl : l.Nodup) (h : [a, b].Sublist l) :
    l.idxOf a < l.idxOf b := by
  induction l with
  | nil => cases h
  | cons x xs ih =>
    obtain ⟨hx, hxs⟩ := List.nodup_cons.1 hl
    cases h with
    | cons _ h =>
      have ha : x ≠ a := fun he => hx (he ▸ h.subset List.mem_cons_self)
      have hb : x ≠ b := fun he => hx (he ▸ h.subset (List.mem_cons_of_mem _ List.mem_cons_self))
      rw [List.idxOf_cons_ne xs ha, List.idxOf_cons_ne xs hb]
      exact Nat.succ_lt_succ (ih hxs h)
    | cons_cons _ h =>
      have hb : a ≠ b := fun he => hx (he ▸ h.subset List.mem_cons_self)
      rw [List.idxOf_cons_self, List.idxOf_cons_ne xs hb]
      exact Nat.succ_pos _

theorem pair_sublist_of_idxOf_lt (hb : b ∈ l) (h : l.idxOf a < l.idxOf b) :
    [a, b].Sublist l := by
  induction l with
  | nil => cases hb
  | cons x xs ih =>
    have hxb : x ≠ b := by
      rintro rfl
      simp at h
    have hb := (List.mem_cons.1 hb).resolve_left (Ne.symm hxb)
    by_cases hxa : x = a
    · subst hxa
      exact (List.singleton_sublist.2 hb).cons_cons x
    · rw [List.idxOf_cons_ne xs hxa, List.idxOf_cons_ne xs hxb] at h
      exact (ih hb (Nat.lt_of_succ_lt_succ h)).cons x

theorem pair_sublist_trans (hl : l.Nodup) (hab : [a, b].Sublist l) (hbc : [b, c].Sublist l) :
    [a, c].Sublist l :=
  pair_sublist_of_idxOf_lt (hbc.subset (List.mem_cons_of_mem _ List.mem_cons_self))
    (Nat.lt_trans (idxOf_lt_of_pair_sublist hl hab) (idxOf_lt_of_pair_sublist hl hbc))

end

/-- Numbers picked from a longer range, below the end of a shorter one. -/
theorem filter_range_filter {p p' : Nat → Bool} {n m : Nat} (h : n ≤ m)
    (hp : ∀ i, i < n → p' i = p i) :
    ((List.range m).filter p').filter (· < n) = (List.range n).filter p := by
  have hrange : (List.range m).filter (fun i => decide (i < n)) = List.range n := by
    obtain ⟨k, rfl⟩ := Nat.exists_eq_add_of_le h
    rw [List.range_add, List.filter_append]
    have hold : (List.range n).filter (fun i => decide (i < n)) = List.range n :=
      List.filter_eq_self.2 fun i hi => by simpa using hi
    have hnew : ((List.range k).map (n + ·)).filter (fun i => decide (i < n)) = [] :=
      List.filter_eq_nil_iff.2 fun i hi => by
        obtain ⟨j, -, rfl⟩ := List.mem_map.1 hi
        simp
    rw [hold, hnew, List.append_nil]
  rw [List.filter_filter]
  simp only [Bool.and_comm]
  rw [← List.filter_filter, hrange]
  exact List.filter_congr fun i hi => hp i (List.mem_range.1 hi)

/-! ## Graphs -/

namespace Graph

variable {g g' : Graph} {i : Nat}

theorem children_eq (g : Graph) (i : Nat) :
    g.children i = (List.range g.size).filter fun j => g.parent? j == some i := by
  have hsorted : (List.range g.size).Pairwise (· < ·) := List.pairwise_lt_range
  refine (hsorted.sublist (children_sublist_range g i)).eq_of_mem_iff (hsorted.filter _) ?_
  intro j
  rw [mem_children, List.mem_filter, List.mem_range, beq_iff_eq, iff_and_self]
  exact lt_size_of_parent?

/-- A new node comes behind the children of its parent. -/
theorem AppendsTo.children_append {n : Node} (h : g.AppendsTo g' n) (i : Nat) :
    g'.children i = g.children i ++ if n.parent = some i then [g.size] else [] := by
  have hnew : g'.parent? g.size = n.parent := by
    rw [parent?, h.node?_size]
    rfl
  rw [Graph.children_eq, Graph.children_eq,
    h.filter_range (p := fun j => g.parent? j == some i) fun j hj => by
      rw [parent?, h.node?_of_lt hj, parent?]]
  simp [hnew]

/-- It is a child of its parent only. -/
theorem AppendsTo.children_eq {n : Node} (h : g.AppendsTo g' n) (hn : n.parent ≠ some i) :
    g'.children i = g.children i := by
  rw [h.children_append, if_neg hn, List.append_nil]

theorem children_setJoin (g : Graph) (node : Nat) (type : Join) (i : Nat) :
    (g.setJoin node type).children i = g.children i := by
  rw [children_eq, children_eq, size_setJoin, parent?_setJoin]

/-- The entity that a node belongs to is the node or stands above it. -/
theorem nearestEntity_mem_lineage (g : Graph) (i : Nat) : g.nearestEntity i ∈ g.lineage i := by
  unfold nearestEntity
  split
  · next j hj => exact List.mem_of_find?_eq_some hj
  · have hne : g.lineage i ≠ [] := List.ne_nil_of_mem (g.ancestry.self_mem_chain i)
    rw [List.getLast?_eq_some_getLast hne]
    exact List.getLast_mem hne

theorem nearestEntity_of_isEntity (h : (g.kind? i).any (·.isEntity) = true) :
    g.nearestEntity i = i := by
  rw [nearestEntity]
  cases hp : g.parent? i with
  | none => simp only [lineage_of_root hp, List.find?_cons, h]
  | some p => simp only [lineage_of_parent hp, List.find?_cons, h]

theorem nearestEntity_of_parent {p : Nat} (h : ¬ (g.kind? i).any (·.isEntity) = true)
    (hp : g.parent? i = some p) : g.nearestEntity i = g.nearestEntity p := by
  have hne : g.lineage p ≠ [] := List.ne_nil_of_mem (g.ancestry.self_mem_chain p)
  rw [Bool.not_eq_true] at h
  simp only [nearestEntity, lineage_of_parent hp, List.find?_cons, h]
  cases (g.lineage p).find? fun j => (g.kind? j).any (·.isEntity) with
  | some j => rfl
  | none =>
    rw [List.getLast?_cons_of_ne_nil hne, List.getLast?_eq_some_getLast hne]
    rfl

/-- Every entity above a node is above the nearest one. -/
theorem mem_lineage_nearestEntity {a : Nat} (ha : a ∈ g.lineage i)
    (he : (g.kind? a).any (·.isEntity) = true) : a ∈ g.lineage (g.nearestEntity i) := by
  induction i using Nat.strongRecOn with
  | ind i ih =>
    by_cases hi : (g.kind? i).any (·.isEntity) = true
    · rw [nearestEntity_of_isEntity hi]
      exact ha
    · have hne : a ≠ i := fun h => hi (h ▸ he)
      obtain ⟨p, hp, hap⟩ := g.ancestry.exists_up_of_mem_chain ha hne
      rw [nearestEntity_of_parent hi hp]
      exact ih p (parent?_lt hp) hap

theorem nearestEntity_le (g : Graph) (i : Nat) : g.nearestEntity i ≤ i :=
  g.ancestry.le_of_mem_chain (g.nearestEntity_mem_lineage i)

namespace Extends

variable (h : g.Extends g')

include h

theorem kind?_eq (hi : i < g.size) : g'.kind? i = g.kind? i := by
  obtain ⟨n, hn⟩ := exists_node?_of_lt hi
  obtain ⟨j, hj, -⟩ := h.node hn
  simp [Graph.kind?, hn, hj]

theorem scope?_eq (hi : i < g.size) : g'.scope? i = g.scope? i := by
  obtain ⟨n, hn⟩ := exists_node?_of_lt hi
  have hs : g.scope? i = some n.scope := scope?_eq_some_iff.2 ⟨n, hn, rfl⟩
  rw [hs, h.scope? hs]

theorem isListed_eq (hi : i < g.size) (s : Nat) : g'.isListed s i = g.isListed s i := by
  obtain ⟨n, hn⟩ := exists_node?_of_lt hi
  obtain ⟨j, hj, -⟩ := h.node hn
  simp [isListed, hn, hj]

theorem isRootOf_eq (hi : i < g.size) (s : Nat) : g'.isRootOf s i = g.isRootOf s i := by
  obtain ⟨n, hn⟩ := exists_node?_of_lt hi
  obtain ⟨j, hj, -⟩ := h.node hn
  simp [isRootOf, hn, hj]

theorem isAttachedTo_eq (hi : i < g.size) (s : Nat) :
    g'.isAttachedTo s i = g.isAttachedTo s i := by
  obtain ⟨n, hn⟩ := exists_node?_of_lt hi
  obtain ⟨j, hj, -⟩ := h.node hn
  rw [isAttachedTo, isAttachedTo, hn, hj, Option.any_some, Option.any_some]
  cases hp : n.parent with
  | none => rfl
  | some p =>
    have hlt : p < g.size := Nat.lt_trans (g.parent_lt i n p hn hp) hi
    rw [Option.bind_some, Option.bind_some, h.scope?_eq hlt]

theorem lineage_eq (hi : i < g.size) : g'.lineage i = g.lineage i :=
  g.ancestry.chain_congr g'.ancestry fun _ hj => h.parent?_eq (Nat.lt_of_le_of_lt hj hi)

theorem nearestEntity_eq (hi : i < g.size) : g'.nearestEntity i = g.nearestEntity i := by
  have hfind : (g.lineage i).find? (fun j => (g'.kind? j).any (·.isEntity)) =
      (g.lineage i).find? (fun j => (g.kind? j).any (·.isEntity)) := by
    refine List.find?_congr fun j hj => ?_
    rw [h.kind?_eq (Nat.lt_of_le_of_lt (g.ancestry.le_of_mem_chain hj) hi)]
  rw [nearestEntity, nearestEntity, h.lineage_eq hi, hfind]

/-- The children that a node had are the first of those it has. -/
theorem children_filter (i : Nat) : (g'.children i).filter (· < g.size) = g.children i := by
  rw [children_eq, children_eq]
  refine filter_range_filter h.size_le fun j hj => ?_
  rw [h.parent?_eq hj]

omit h in
/-- Below a new node there are new nodes only. -/
theorem preorder_filter_of_ge (hi : g.size ≤ i) : (g'.preorder i).filter (· < g.size) = [] := by
  refine List.filter_eq_nil_iff.2 fun j hj hlt => ?_
  have hij := g'.ancestry.le_of_mem_chain (mem_preorder.1 hj)
  exact absurd (Nat.lt_of_le_of_lt hij (of_decide_eq_true hlt)) (Nat.not_lt.2 hi)

omit h in
/-- Of the trees under a list of nodes, those under new ones do not matter. -/
theorem flatMap_preorder_filter (l : List Nat) :
    (l.flatMap g'.preorder).filter (· < g.size) =
      (l.filter (· < g.size)).flatMap fun c => (g'.preorder c).filter (· < g.size) := by
  rw [List.filter_flatMap]
  induction l with
  | nil => rfl
  | cons c rest ih =>
    by_cases hc : c < g.size
    · rw [List.filter_cons_of_pos (by simpa using hc), List.flatMap_cons, List.flatMap_cons, ih]
    · rw [List.filter_cons_of_neg (by simpa using hc), List.flatMap_cons, ih,
        preorder_filter_of_ge (Nat.le_of_not_lt hc), List.nil_append]

/-- The tree under a node is what it was, with new nodes put in. -/
theorem preorder_filter (hi : i < g.size) :
    (g'.preorder i).filter (· < g.size) = g.preorder i := by
  induction i using g.down_induction with
  | step i ih =>
    have hrest : (g.children i).flatMap (fun c => (g'.preorder c).filter (· < g.size)) =
        (g.children i).flatMap g.preorder := by
      refine List.flatMap_congr fun c hc => ?_
      have hp := mem_children.1 hc
      exact ih c hp (lt_size_of_parent? hp)
    rw [preorder_eq, List.filter_cons_of_pos (by simpa using hi), flatMap_preorder_filter,
      h.children_filter, hrest, ← preorder_eq]

end Extends

end Graph

/-! ## Declaration orders -/

namespace Owned

variable {g g' : Graph} {t t' : Scopes} {a b i s : Nat}

theorem starts_filter (ho : Owned g t) (ho' : Owned g' t') (h : g.Extends g') (s : Nat) :
    (t'.starts s).filter (· < g.size) = t.starts s := by
  rw [Scopes.starts, Scopes.starts, List.filter_append, ho.roots, ho.attached, ho'.roots,
    ho'.attached]
  rw [filter_range_filter h.size_le fun i hi => h.isRootOf_eq hi s]
  rw [filter_range_filter h.size_le fun i hi => h.isAttachedTo_eq hi s]

/-- **Declaration orders stay.** A scope declares what it declared, in the same order, with new
nodes put in. -/
theorem declarationOrder_filter (ho : Owned g t) (ho' : Owned g' t') (h : g.Extends g')
    (s : Nat) : (t'.declarationOrder g' s).filter (· < g.size) = t.declarationOrder g s := by
  have htrees : (t.starts s).flatMap (fun i => (g'.preorder i).filter (· < g.size)) =
      (t.starts s).flatMap g.preorder :=
    List.flatMap_congr fun i hi => h.preorder_filter (ho.lt_size_of_start hi)
  rw [ho.declarationOrder_eq, ho'.declarationOrder_eq, List.filter_filter]
  simp only [Bool.and_comm]
  rw [← List.filter_filter, Graph.Extends.flatMap_preorder_filter, ho.starts_filter ho' h, htrees]
  refine List.filter_congr fun i hi => h.isListed_eq ?_ s
  obtain ⟨a, ha, hia⟩ := List.mem_flatMap.1 hi
  exact Graph.lt_size_of_mem_preorder (ho.lt_size_of_start ha) hia

/-- Which of two entities a scope declares first stays. -/
theorem metBy_eq (ho : Owned g t) (ho' : Owned g' t') (h : g.Extends g') (ha : a < g.size)
    (hb : b < g.size) (s : Nat) : Scopes.metBy a b (t'.declarationOrder g' s) =
      Scopes.metBy a b (t.declarationOrder g s) := by
  rw [← ho.declarationOrder_filter ho' h s]
  exact (Scopes.metBy_filter (by simpa using ha) (by simpa using hb) _).symm

end Owned

end PathQuery
