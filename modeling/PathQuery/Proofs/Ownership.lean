import PathQuery.Proofs.Growth

/-!
# Who owns which node

A node belongs to the scope that created it. Along every run the graph and the scopes agree on
that (`Owned`):

* roots are the nodes without a parent, and the nodes that can own an alias are those that
  reserve one;
* the scope of a parent encloses the scope of its children;
* the `from` entries of a scope are its roots, and the nodes attached to it are those of its nodes
  whose parent another scope owns, each in the order of creation.

A new node is the last one of the graph, so it only comes at the end of one of these lists
(`Owned.append`). What changes a join type or the current scope changes none of them.
-/

namespace PathQuery

/-! ## The invariant -/

namespace Graph

/-- Whether a node is a `from` entry of a scope. -/
def isRootOf (g : Graph) (s i : Nat) : Bool :=
  (g.node? i).any fun n => n.kind == .root && n.scope == s

/-- Whether a scope created a node under a node of another scope. -/
def isAttachedTo (g : Graph) (s i : Nat) : Bool :=
  (g.node? i).any fun n => n.scope == s && (n.parent.bind g.scope?).any (· != s)

end Graph

/-- Graph and scopes agree on who owns which node. -/
structure Owned (g : Graph) (t : Scopes) : Prop where
  root_iff : ∀ {i n}, g.node? i = some n → (n.kind = .root ↔ n.parent = none)
  alias_isSome : ∀ {i n}, g.node? i = some n → n.reservedAlias.isSome = n.kind.isEntity
  scope_lt : ∀ {i s}, g.scope? i = some s → s < t.size
  nested : ∀ {i p s r}, g.parent? i = some p → g.scope? i = some s → g.scope? p = some r →
    t.encloses r s = true
  roots : ∀ s, t.roots s = (List.range g.size).filter (g.isRootOf s)
  attached : ∀ s, t.attached s = (List.range g.size).filter (g.isAttachedTo s)

/-- The graph is another one with one more node at its end. -/
structure Graph.AppendsTo (g g' : Graph) (n : Node) : Prop where
  size : g'.size = g.size + 1
  node? : ∀ i, g'.node? i = if i = g.size then some n else g.node? i

namespace Graph

variable {g g' : Graph} {n : Node} {i : Nat}

theorem appendsTo_addRoot (g : Graph) (target name : String) (scope : Nat) :
    g.AppendsTo (g.addRoot target name scope)
      ⟨none, "", target, .root, none, none, some name, scope⟩ :=
  ⟨size_addRoot g target name scope, node?_addRoot g target name scope⟩

theorem appendsTo_addChild {parent : Nat} (h : parent < g.size) (segment : String)
    (spec : ChildSpec) (name : Option String) (scope : Nat) :
    g.AppendsTo (g.addChild parent segment spec name scope)
      ⟨some parent, segment, spec.target, spec.kind, none, spec.identifier, name, scope⟩ :=
  ⟨size_addChild g parent segment spec name scope h, node?_addChild h segment spec name scope⟩

namespace AppendsTo

variable (h : g.AppendsTo g' n)

include h

theorem node?_of_lt (hi : i < g.size) : g'.node? i = g.node? i := by
  rw [h.node?, if_neg (Nat.ne_of_lt hi)]

theorem node?_size : g'.node? g.size = some n := by rw [h.node?, if_pos rfl]

/-- The nodes of the graph are the new one and those there were. -/
theorem cases {m : Node} (hm : g'.node? i = some m) :
    (i = g.size ∧ m = n) ∨ (i < g.size ∧ g.node? i = some m) := by
  rw [h.node?] at hm
  split at hm
  · next hi => cases hm; exact Or.inl ⟨hi, rfl⟩
  · exact Or.inr ⟨lt_size_of_node? hm, hm⟩

theorem scope?_of_lt (hi : i < g.size) : g'.scope? i = g.scope? i := by
  rw [scope?, h.node?_of_lt hi, scope?]

theorem scope?_size : g'.scope? g.size = some n.scope := by rw [scope?, h.node?_size]; rfl

theorem parent?_lt_size {p : Nat} (hp : n.parent = some p) : p < g.size :=
  g'.parent_lt _ _ _ h.node?_size hp

theorem isRootOf_of_lt (hi : i < g.size) (s : Nat) : g'.isRootOf s i = g.isRootOf s i := by
  rw [isRootOf, h.node?_of_lt hi, isRootOf]

theorem isAttachedTo_of_lt (hi : i < g.size) (s : Nat) :
    g'.isAttachedTo s i = g.isAttachedTo s i := by
  rw [isAttachedTo, isAttachedTo, h.node?_of_lt hi]
  obtain ⟨m, hm⟩ := exists_node?_of_lt hi
  rw [hm, Option.any_some, Option.any_some]
  cases hp : m.parent with
  | none => rfl
  | some p =>
    have hlt : p < g.size := Nat.lt_trans (g.parent_lt i m p hm hp) hi
    rw [Option.bind_some, Option.bind_some, h.scope?_of_lt hlt]

/-- A list of nodes picked by a condition that is the same on old nodes gets the new node at its
end if the condition holds of it. -/
theorem filter_range {p p' : Nat → Bool} (hp : ∀ i, i < g.size → p' i = p i) :
    (List.range g'.size).filter p' =
      (List.range g.size).filter p ++ if p' g.size then [g.size] else [] := by
  rw [h.size, List.range_succ, List.filter_append, List.filter_cons, List.filter_nil]
  rw [List.filter_congr fun i hi => hp i (List.mem_range.1 hi)]

end AppendsTo

end Graph

/-! ## Preservation -/

namespace Owned

variable {g g' : Graph} {t t' : Scopes} {n : Node}

theorem initial : Owned .empty .initial where
  root_iff hn := nomatch hn
  alias_isSome hn := nomatch hn
  scope_lt hs := nomatch hs
  nested hp := nomatch hp
  roots s := match s with
    | 0 => rfl
    | _ + 1 => rfl
  attached s := match s with
    | 0 => rfl
    | _ + 1 => rfl

/-- The invariant with one more node, under scopes that list it. -/
theorem append (ho : Owned g t) (h : g.AppendsTo g' n) (ht : t.Extends t')
    (hroot : n.kind = .root ↔ n.parent = none)
    (halias : n.reservedAlias.isSome = n.kind.isEntity) (hscope : n.scope < t'.size)
    (hparent : ∀ p r, n.parent = some p → g.scope? p = some r → t'.encloses r n.scope = true)
    (hroots : ∀ s, t'.roots s = t.roots s ++ if g'.isRootOf s g.size then [g.size] else [])
    (hattached : ∀ s,
      t'.attached s = t.attached s ++ if g'.isAttachedTo s g.size then [g.size] else []) :
    Owned g' t' where
  root_iff hm := by
    rcases h.cases hm with ⟨-, rfl⟩ | ⟨-, hm⟩
    · exact hroot
    · exact ho.root_iff hm
  alias_isSome hm := by
    rcases h.cases hm with ⟨-, rfl⟩ | ⟨-, hm⟩
    · exact halias
    · exact ho.alias_isSome hm
  scope_lt hs := by
    obtain ⟨m, hm, rfl⟩ := Graph.scope?_eq_some_iff.1 hs
    rcases h.cases hm with ⟨-, rfl⟩ | ⟨-, hm⟩
    · exact hscope
    · exact Nat.lt_of_lt_of_le (ho.scope_lt (Graph.scope?_eq_some_iff.2 ⟨m, hm, rfl⟩)) ht.size_le
  nested hp hs hr := by
    obtain ⟨m, hm, rfl⟩ := Graph.scope?_eq_some_iff.1 hs
    obtain ⟨m', hm', hp⟩ := Graph.parent?_eq_some_iff.1 hp
    rw [hm] at hm'
    cases hm'
    rcases h.cases hm with ⟨-, rfl⟩ | ⟨hi, hm⟩
    · rw [h.scope?_of_lt (h.parent?_lt_size hp)] at hr
      exact hparent _ _ hp hr
    · have hs := Graph.scope?_eq_some_iff.2 ⟨m, hm, rfl⟩
      rw [h.scope?_of_lt (Nat.lt_trans (g.parent_lt _ m _ hm hp) hi)] at hr
      rw [ht.encloses_eq (ho.scope_lt hs)]
      exact ho.nested (Graph.parent?_eq_some_iff.2 ⟨m, hm, hp⟩) hs hr
  roots s := by
    rw [hroots, ho.roots, h.filter_range fun i hi => h.isRootOf_of_lt hi s]
  attached s := by
    rw [hattached, ho.attached, h.filter_range fun i hi => h.isAttachedTo_of_lt hi s]

theorem addRoot (ho : Owned g t) (target name : String) :
    Owned (g.addRoot target name t.current) (t.addRoot g.size) := by
  have h := Graph.appendsTo_addRoot g target name t.current
  refine ho.append h (t.extends_addRoot g.size) (by simp) rfl ?_ (by simp) ?_ ?_
  · exact Nat.lt_of_lt_of_le t.current_lt (t.extends_addRoot g.size).size_le
  · intro s
    rw [Scopes.roots_addRoot, Graph.isRootOf, h.node?_size]
    by_cases hs : s = t.current
    · simp [hs]
    · simp [hs, Ne.symm hs]
  · intro s
    simp [Scopes.attached_addRoot, Graph.isAttachedTo, h.node?_size]

theorem addChild (ho : Owned g t) {parent r : Nat} (hr : g.scope? parent = some r)
    (henc : t.encloses r t.current = true) (segment : String) {spec : ChildSpec}
    (name : Option String) (hkind : spec.kind ≠ .root)
    (halias : name.isSome = spec.kind.isEntity) :
    Owned (g.addChild parent segment spec name t.current)
      (if g.scope? parent = some t.current then t else t.attach g.size) := by
  have hlt : parent < g.size := Graph.lt_size_of_scope? hr
  have h := Graph.appendsTo_addChild hlt segment spec name t.current
  have hnew : ∀ s, (g.addChild parent segment spec name t.current).isAttachedTo s g.size =
      (t.current == s && r != s) := by
    intro s
    rw [Graph.isAttachedTo, h.node?_size]
    simp [h.scope?_of_lt hlt, hr]
  have hnoroot : ∀ s,
      (g.addChild parent segment spec name t.current).isRootOf s g.size = false := by
    intro s
    rw [Graph.isRootOf, h.node?_size]
    simp [hkind]
  have hroot : spec.kind = .root ↔ some parent = none := by simp [hkind]
  split
  · next hown =>
    obtain rfl : r = t.current := Option.some.inj (hr.symm.trans hown)
    refine ho.append h (.refl t) hroot halias t.current_lt ?_ ?_ ?_
    · rintro p s ⟨⟩ hs
      rw [hr] at hs
      cases hs
      exact henc
    · simp [hnoroot]
    · intro s
      rw [hnew]
      by_cases hs : t.current = s <;> simp [hs]
  · next hother =>
    have ht := t.extends_attach g.size
    refine ho.append h ht hroot halias (Nat.lt_of_lt_of_le t.current_lt ht.size_le) ?_ ?_ ?_
    · rintro p s ⟨⟩ hs
      rw [hr] at hs
      cases hs
      rw [ht.encloses_eq t.current_lt]
      exact henc
    · simp [hnoroot, Scopes.roots_attach]
    · intro s
      rw [hnew, Scopes.attached_attach]
      by_cases hs : s = t.current
      · subst hs
        have hne : r ≠ t.current := fun he => hother (he ▸ hr)
        simp [hne]
      · simp [hs, Ne.symm hs]

theorem setJoin (ho : Owned g t) (k : Nat) (type : Join) : Owned (g.setJoin k type) t := by
  have hnode : ∀ {i m}, (g.setJoin k type).node? i = some m →
      ∃ n, g.node? i = some n ∧ m = if k = i then { n with join := some type } else n := by
    intro i m hm
    rw [Graph.node?_setJoin, Option.map_eq_some_iff] at hm
    obtain ⟨n, hn, rfl⟩ := hm
    exact ⟨n, hn, rfl⟩
  constructor
  · intro i m hm
    obtain ⟨n, hn, rfl⟩ := hnode hm
    have := ho.root_iff hn
    split <;> exact this
  · intro i m hm
    obtain ⟨n, hn, rfl⟩ := hnode hm
    have := ho.alias_isSome hn
    split <;> exact this
  · intro i s hs
    exact ho.scope_lt (by simpa using hs)
  · intro i p s r hp hs hr
    exact ho.nested (by simpa using hp) (by simpa using hs) (by simpa using hr)
  · intro s
    rw [ho.roots, Graph.size_setJoin]
    refine List.filter_congr fun i _ => ?_
    rw [Graph.isRootOf, Graph.isRootOf, Graph.node?_setJoin]
    cases g.node? i with
    | none => rfl
    | some n => by_cases hk : k = i <;> simp [hk]
  · intro s
    rw [ho.attached, Graph.size_setJoin]
    refine List.filter_congr fun i _ => ?_
    rw [Graph.isAttachedTo, Graph.isAttachedTo, Graph.node?_setJoin, Graph.scope?_setJoin]
    cases g.node? i with
    | none => rfl
    | some n => by_cases hk : k = i <;> simp [hk]

theorem enter (ho : Owned g t) : Owned g t.enter where
  root_iff := ho.root_iff
  alias_isSome := ho.alias_isSome
  scope_lt hs := Nat.lt_of_lt_of_le (ho.scope_lt hs) t.extends_enter.size_le
  nested hp hs hr := by
    rw [t.extends_enter.encloses_eq (ho.scope_lt hs)]
    exact ho.nested hp hs hr
  roots s := by rw [Scopes.roots_enter, ho.roots]
  attached s := by rw [Scopes.attached_enter, ho.attached]

theorem leave (ho : Owned g t) (i : Nat) : Owned g (t.leave i) where
  root_iff := ho.root_iff
  alias_isSome := ho.alias_isSome
  scope_lt hs := by rw [Scopes.size_leave]; exact ho.scope_lt hs
  nested hp hs hr := by
    rw [(t.extends_leave i).encloses_eq (ho.scope_lt hs)]
    exact ho.nested hp hs hr
  roots s := by simpa [Scopes.roots] using ho.roots s
  attached s := by simpa [Scopes.attached] using ho.attached s

end Owned

end PathQuery
