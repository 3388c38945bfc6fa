import PathQuery.Graph.Growth
import PathQuery.Proofs.Ancestry

/-!
# How graphs and scopes grow

A run adds nodes and scopes and takes none away. What a node was created as stays, only a join type
may be set later, and a scope stays inside the one it was opened in. So what is above a node or a
scope is settled when it is created.

Main statements: `Graph.Extends.lineage_eq` and `Scopes.Extends.encloses_eq`.
-/

namespace PathQuery

/-! ## Operations on graphs -/

namespace Graph

private theorem getElem?_append_one {α : Type} (l : List α) (a : α) (i : Nat) :
    (l ++ [a])[i]? = if i = l.length then some a else l[i]? := by
  rcases Nat.lt_trichotomy i l.length with h | rfl | h
  · rw [List.getElem?_append_left h, if_neg (Nat.ne_of_lt h)]
  · simp
  · rw [if_neg (Nat.ne_of_gt h), List.getElem?_eq_none (by simp; omega),
      List.getElem?_eq_none (Nat.le_of_lt h)]

theorem node?_addRoot (g : Graph) (target name : String) (scope i : Nat) :
    (g.addRoot target name scope).node? i =
      if i = g.size then some ⟨none, "", target, .root, none, none, some name, scope⟩
      else g.node? i :=
  getElem?_append_one _ _ _

theorem node?_addChild {g : Graph} {parent : Nat} (h : parent < g.size) (segment : String)
    (spec : ChildSpec) (name : Option String) (scope i : Nat) :
    (g.addChild parent segment spec name scope).node? i =
      if i = g.size then
        some ⟨some parent, segment, spec.target, spec.kind, none, spec.identifier, name, scope⟩
      else g.node? i := by
  rw [addChild, dif_pos h]
  exact getElem?_append_one _ _ _

theorem node?_setJoin (g : Graph) (k i : Nat) (type : Join) :
    (g.setJoin k type).node? i =
      (g.node? i).map fun n => if k = i then { n with join := some type } else n := by
  rw [node?, node?, setJoin, List.getElem?_modify]
  rfl

@[simp] theorem scope?_setJoin (g : Graph) (k : Nat) (type : Join) :
    (g.setJoin k type).scope? = g.scope? := by
  funext i
  rw [scope?, node?_setJoin, scope?]
  cases g.node? i with
  | none => rfl
  | some n => by_cases hk : k = i <;> simp [hk]

@[simp] theorem parent?_setJoin (g : Graph) (k : Nat) (type : Join) :
    (g.setJoin k type).parent? = g.parent? := by
  funext i
  rw [parent?, node?_setJoin, parent?]
  cases g.node? i with
  | none => rfl
  | some n => by_cases hk : k = i <;> simp [hk]

theorem lt_size_of_node? {g : Graph} {i : Nat} {n : Node} (h : g.node? i = some n) :
    i < g.size := by
  by_contra hi
  rw [node?_eq_none_iff.2 (Nat.le_of_not_lt hi)] at h
  cases h

theorem exists_node?_of_lt {g : Graph} {i : Nat} (h : i < g.size) : ∃ n, g.node? i = some n := by
  cases hn : g.node? i with
  | none => exact absurd (node?_eq_none_iff.1 hn) (Nat.not_le.2 h)
  | some n => exact ⟨n, rfl⟩

theorem scope?_eq_some_iff {g : Graph} {i s : Nat} :
    g.scope? i = some s ↔ ∃ n, g.node? i = some n ∧ n.scope = s := by
  simp [scope?]

theorem lt_size_of_scope? {g : Graph} {i s : Nat} (h : g.scope? i = some s) : i < g.size := by
  obtain ⟨n, hn, -⟩ := scope?_eq_some_iff.1 h
  exact lt_size_of_node? hn

theorem parent?_eq_some_iff {g : Graph} {i p : Nat} :
    g.parent? i = some p ↔ ∃ n, g.node? i = some n ∧ n.parent = some p := by
  simp [parent?, Option.bind_eq_some_iff]

/-! ## Graphs that extend one another -/

/-- Whether a graph has the nodes of another one, as they were created. -/
structure Extends (g g' : Graph) : Prop where
  node : ∀ {i n}, g.node? i = some n →
    ∃ j, g'.node? i = some { n with join := j } ∧ (n.join.isSome → j.isSome)

namespace Extends

variable {g g' g'' : Graph} {i : Nat}

theorem refl (g : Graph) : g.Extends g := ⟨fun {_ n} hn => ⟨n.join, hn, id⟩⟩

theorem trans (h : g.Extends g') (h' : g'.Extends g'') : g.Extends g'' := by
  refine ⟨fun {i n} hn => ?_⟩
  obtain ⟨j, hj, hs⟩ := h.node hn
  obtain ⟨k, hk, hs'⟩ := h'.node hj
  exact ⟨k, hk, hs' ∘ hs⟩

theorem lt_size (h : g.Extends g') (hi : i < g.size) : i < g'.size := by
  obtain ⟨n, hn⟩ := exists_node?_of_lt hi
  obtain ⟨j, hj, -⟩ := h.node hn
  exact lt_size_of_node? hj

theorem size_le (h : g.Extends g') : g.size ≤ g'.size := by
  by_contra hlt
  exact absurd (h.lt_size (Nat.not_le.1 hlt)) (Nat.lt_irrefl _)

theorem scope? (h : g.Extends g') {s : Nat} (hs : g.scope? i = some s) : g'.scope? i = some s := by
  obtain ⟨n, hn, rfl⟩ := scope?_eq_some_iff.1 hs
  obtain ⟨j, hj, -⟩ := h.node hn
  exact scope?_eq_some_iff.2 ⟨_, hj, rfl⟩

theorem parent?_eq (h : g.Extends g') (hi : i < g.size) : g'.parent? i = g.parent? i := by
  obtain ⟨n, hn⟩ := exists_node?_of_lt hi
  obtain ⟨j, hj, -⟩ := h.node hn
  simp [parent?, hn, hj]

end Extends

theorem extends_addRoot (g : Graph) (target name : String) (scope : Nat) :
    g.Extends (g.addRoot target name scope) := by
  refine ⟨fun {i n} hn => ⟨n.join, ?_, id⟩⟩
  rw [node?_addRoot, if_neg (Nat.ne_of_lt (lt_size_of_node? hn)), hn]

theorem extends_addChild (g : Graph) (parent : Nat) (segment : String) (spec : ChildSpec)
    (name : Option String) (scope : Nat) :
    g.Extends (g.addChild parent segment spec name scope) := by
  by_cases h : parent < g.size
  · refine ⟨fun {i n} hn => ⟨n.join, ?_, id⟩⟩
    rw [node?_addChild h, if_neg (Nat.ne_of_lt (lt_size_of_node? hn)), hn]
  · rw [addChild, dif_neg h]
    exact Extends.refl g

theorem extends_setJoin (g : Graph) (k : Nat) (type : Join) : g.Extends (g.setJoin k type) := by
  refine ⟨fun {i n} hn => ?_⟩
  by_cases hk : k = i
  · exact ⟨some type, by simp [node?_setJoin, hn, hk], fun _ => rfl⟩
  · exact ⟨n.join, by simp [node?_setJoin, hn, hk], id⟩

end Graph

/-! ## Operations on scopes -/

namespace Scopes

variable (t : Scopes)

@[simp] theorem size_enter : t.enter.size = t.size + 1 := by simp [enter, size]

@[simp] theorem current_enter : t.enter.current = t.size := rfl

theorem scope?_enter (i : Nat) :
    t.enter.scope? i = if i = t.size then some ⟨some t.current, [], []⟩ else t.scope? i :=
  Graph.getElem?_append_one _ _ _

theorem scope?_size : t.scope? t.size = none := List.getElem?_eq_none (Nat.le_refl _)

theorem outer?_enter (i : Nat) :
    t.enter.outer? i = if i = t.size then some t.current else t.outer? i := by
  rw [outer?, scope?_enter]
  split <;> rfl

@[simp] theorem roots_enter (i : Nat) : t.enter.roots i = t.roots i := by
  rw [roots, roots, scope?_enter]
  split
  · next h => rw [h, scope?_size]; rfl
  · rfl

@[simp] theorem attached_enter (i : Nat) : t.enter.attached i = t.attached i := by
  rw [attached, attached, scope?_enter]
  split
  · next h => rw [h, scope?_size]; rfl
  · rfl

@[simp] theorem levels_leave (i : Nat) : (t.leave i).levels = t.levels := by
  rw [leave]
  split <;> rfl

@[simp] theorem scope?_leave (i j : Nat) : (t.leave i).scope? j = t.scope? j := by
  rw [scope?, levels_leave, scope?]

@[simp] theorem size_leave (i : Nat) : (t.leave i).size = t.size := by
  rw [size, levels_leave, size]

theorem current_leave {t : Scopes} {i p : Nat} (h : t.outer? i = some p) :
    (t.leave i).current = p := by
  rw [leave]
  split
  · next h' => rw [h] at h'; cases h'
  · next p' h' => rw [h] at h'; cases h'; rfl

theorem scope?_modifyCurrent (f : Scope → Scope) (hf : ∀ s, (f s).outer = s.outer) (i : Nat) :
    (t.modifyCurrent f hf).scope? i =
      (t.scope? i).map fun s => if t.current = i then f s else s := by
  rw [scope?, scope?, modifyCurrent, List.getElem?_modify]
  rfl

@[simp] theorem size_modifyCurrent (f : Scope → Scope) (hf : ∀ s, (f s).outer = s.outer) :
    (t.modifyCurrent f hf).size = t.size := by
  simp [modifyCurrent, size]

@[simp] theorem outer?_modifyCurrent (f : Scope → Scope) (hf : ∀ s, (f s).outer = s.outer)
    (i : Nat) : (t.modifyCurrent f hf).outer? i = t.outer? i := by
  rw [outer?, outer?, scope?_modifyCurrent]
  cases t.scope? i with
  | none => rfl
  | some s => simp only [Option.map_some, Option.bind_some]; split <;> simp [hf]

theorem exists_scope?_of_lt {t : Scopes} {i : Nat} (h : i < t.size) :
    ∃ s, t.scope? i = some s := by
  rw [scope?, List.getElem?_eq_getElem h]
  exact ⟨_, rfl⟩

theorem roots_addRoot (node i : Nat) :
    (t.addRoot node).roots i = if i = t.current then t.roots i ++ [node] else t.roots i := by
  rw [addRoot, roots, scope?_modifyCurrent, roots]
  by_cases hi : i = t.current
  · obtain ⟨s, hs⟩ := exists_scope?_of_lt t.current_lt
    simp [hi, hs]
  · simp only [if_neg hi, if_neg (Ne.symm hi), Option.map_id']

theorem attached_addRoot (node i : Nat) : (t.addRoot node).attached i = t.attached i := by
  rw [addRoot, attached, scope?_modifyCurrent, attached]
  cases t.scope? i with
  | none => rfl
  | some s => simp only [Option.map_some, Option.getD_some]; split <;> rfl

theorem attached_attach (node i : Nat) :
    (t.attach node).attached i =
      if i = t.current then t.attached i ++ [node] else t.attached i := by
  rw [attach, attached, scope?_modifyCurrent, attached]
  by_cases hi : i = t.current
  · obtain ⟨s, hs⟩ := exists_scope?_of_lt t.current_lt
    simp [hi, hs]
  · simp only [if_neg hi, if_neg (Ne.symm hi), Option.map_id']

theorem roots_attach (node i : Nat) : (t.attach node).roots i = t.roots i := by
  rw [attach, roots, scope?_modifyCurrent, roots]
  cases t.scope? i with
  | none => rfl
  | some s => simp only [Option.map_some, Option.getD_some]; split <;> rfl

/-! ## Scopes that extend one another -/

/-- Whether scopes go on from others: those are still inside the same ones. -/
structure Extends (t t' : Scopes) : Prop where
  size_le : t.size ≤ t'.size
  outer?_eq : ∀ {i}, i < t.size → t'.outer? i = t.outer? i
  roots : ∀ {i r}, r ∈ t.roots i → r ∈ t'.roots i

namespace Extends

variable {t t' t'' : Scopes}

theorem refl (t : Scopes) : t.Extends t := ⟨Nat.le_refl _, fun _ => rfl, id⟩

theorem trans (h : t.Extends t') (h' : t'.Extends t'') : t.Extends t'' where
  size_le := Nat.le_trans h.size_le h'.size_le
  outer?_eq hi := (h'.outer?_eq (Nat.lt_of_lt_of_le hi h.size_le)).trans (h.outer?_eq hi)
  roots hr := h'.roots (h.roots hr)

theorem encloses_eq (h : t.Extends t') {a i : Nat} (hi : i < t.size) :
    t'.encloses a i = t.encloses a i := by
  have hc : t'.enclosing i = t.enclosing i :=
    t.ancestry.chain_congr t'.ancestry fun _ hj => h.outer?_eq (Nat.lt_of_le_of_lt hj hi)
  rw [encloses, encloses, hc]

/-- What encloses a scope goes on to, also if there is no such scope yet. -/
theorem encloses (h : t.Extends t') {a i : Nat} (ha : t.encloses a i = true) :
    t'.encloses a i = true := by
  by_cases hi : i < t.size
  · rw [h.encloses_eq hi]
    exact ha
  · have hnone : t.outer? i = none := by
      rw [outer?, Scopes.scope?, List.getElem?_eq_none (Nat.le_of_not_lt hi)]
      rfl
    rw [encloses_iff, enclosing_of_outermost hnone, List.mem_singleton] at ha
    rw [ha]
    exact encloses_self t' i

end Extends

theorem extends_enter : t.Extends t.enter where
  size_le := by simp
  outer?_eq hi := by rw [outer?_enter, if_neg (Nat.ne_of_lt hi)]
  roots := by simp

theorem extends_leave (i : Nat) : t.Extends (t.leave i) where
  size_le := by simp
  outer?_eq _ := by simp [outer?]
  roots := by simp [Scopes.roots]

theorem extends_addRoot (node : Nat) : t.Extends (t.addRoot node) where
  size_le := by simp [addRoot]
  outer?_eq _ := by simp [addRoot]
  roots hr := by
    rw [roots_addRoot]
    split
    · exact List.mem_append_left _ hr
    · exact hr

theorem extends_attach (node : Nat) : t.Extends (t.attach node) where
  size_le := by simp [attach]
  outer?_eq _ := by simp [attach]
  roots := by simp [roots_attach]

end Scopes

end PathQuery
