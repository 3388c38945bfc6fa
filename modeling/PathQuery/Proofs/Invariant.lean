import PathQuery.Proofs.Change
import PathQuery.Proofs.Numbering

/-!
# Sound queries

A query is `Sound` when

* graph and scopes agree on who owns which node, and no alias is shared;
* there are clauses for each scope, and what they hold fits the scope, whose handles may be others
  than those of another scope;
* roots stand for entities.

Main statement: `Sound.change`, that each of the six changes keeps all of it. What a change leaves
alone is said by `Change.extends`.
-/

namespace PathQuery

open Relation

/-! ## Queries that extend one another -/

structure Query.Extends (q q' : Query) : Prop where
  graph : q.graph.Extends q'.graph
  scopes : q.scopes.Extends q'.scopes
  schema : q'.schema = q.schema

namespace Query

variable {h : Handles} {q q' q'' : Query}

theorem Extends.refl (q : Query) : q.Extends q := ⟨.refl _, .refl _, rfl⟩

theorem Extends.trans (h₁ : q.Extends q') (h₂ : q'.Extends q'') : q.Extends q'' :=
  ⟨h₁.graph.trans h₂.graph, h₁.scopes.trans h₂.scopes, h₂.schema.trans h₁.schema⟩

/-! ## Additions to clauses -/

theorem clauses_modifyClauses (q : Query) (f : Clauses → Clauses) (s : Nat) :
    (q.modifyClauses f).clauses[s]? =
      (q.clauses[s]?).map fun c => if q.current = s then f c else c := by
  rw [modifyClauses, List.getElem?_modify]
  rfl

theorem add_eq (q : Query) (a : Addition) : q.add a = q.modifyClauses (·.add a) ∨
    ∃ c members rest, a = .filter c ∧ q.groups = members :: rest ∧
      q.add a = { q with groups := (members ++ [c]) :: rest } := by
  cases a with
  | filter c =>
    cases hg : q.groups with
    | nil =>
      left
      show q.addFilter c = _
      rw [addFilter, hg]
      rfl
    | cons members rest =>
      right
      refine ⟨c, members, rest, rfl, rfl, ?_⟩
      show q.addFilter c = _
      rw [addFilter, hg]
  | _ => exact Or.inl rfl

theorem Change.extends (hc : Change h q q') : q.Extends q' := by
  cases hc with
  | pending | bind => exact ⟨.refl _, .refl _, rfl⟩
  | root type known => exact ⟨Graph.extends_addRoot _ _ _ _, Scopes.extends_addRoot _ _, rfl⟩
  | child owner property r seen kind new resolved =>
    refine ⟨Graph.extends_addChild _ _ _ _ _ _, ?_, rfl⟩
    rw [withChild]
    split
    · exact .refl _
    · exact Scopes.extends_attach _ _
  | join node type => exact ⟨Graph.extends_setJoin _ _ _, .refl _, rfl⟩
  | add a fits =>
    rcases q.add_eq a with heq | ⟨_, _, _, -, -, heq⟩
    · rw [heq]; exact ⟨.refl _, .refl _, rfl⟩
    · rw [heq]; exact ⟨.refl _, .refl _, rfl⟩

theorem Change.current_eq (hc : Change h q q') : q'.current = q.current := by
  cases hc with
  | child owner property r seen kind new resolved =>
    show (q.withChild owner property _).scopes.current = _
    rw [withChild]
    dsimp only
    split <;> rfl
  | add a fits =>
    rcases q.add_eq a with heq | ⟨_, _, _, -, -, heq⟩
    · rw [heq]; rfl
    · rw [heq]; rfl
  | _ => rfl

theorem current_of_changes (hc : ReflTransGen (Change h) q q') : q'.current = q.current := by
  induction hc with
  | refl => rfl
  | tail _ hc ih => exact hc.current_eq.trans ih

theorem extends_of_changes (hc : ReflTransGen (Change h) q q') : q.Extends q' := by
  induction hc with
  | refl => exact .refl q
  | tail _ hc ih => exact ih.trans hc.extends

end Query

/-! ## Clauses that fit -/

structure Clauses.Fits (w : Site) (c : Clauses) : Prop where
  items : ∀ o ∈ c.items, o.Fits w
  conditions : ∀ x ∈ c.conditions, x.Fits w
  joins : ∀ x ∈ c.joinConditions, w.Joins x.1 ∧ x.2.UpTo w x.1

namespace Clauses

variable {w w' : Site} {c : Clauses}

theorem fits_empty (w : Site) : Clauses.empty.Fits w := by
  constructor <;> simp [empty, items, conditions]

/-- The condition of a join is one of the conditions. -/
theorem mem_conditions_of_join {x : Nat × Condition} (hx : x ∈ c.joinConditions) :
    x.2 ∈ c.conditions :=
  List.mem_append_right _ (List.mem_map_of_mem hx)

theorem Fits.grows (hc : c.Fits w) (hw : w.Grows w') : c.Fits w' where
  items o ho := (hc.items o ho).grows hw
  conditions x hx := (hc.conditions x hx).grows hw
  joins x hx := by
    obtain ⟨hj, hu⟩ := hc.joins x hx
    exact ⟨hj.grows hw, hu.grows hw hj (hc.conditions x.2 (mem_conditions_of_join hx))⟩

theorem Fits.add (hc : c.Fits w) {a : Addition} (ha : a.Fits w) : (c.add a).Fits w where
  items o ho := (mem_items_add.1 ho).elim (hc.items o) (ha.items o)
  conditions x hx := (mem_conditions_add.1 hx).elim (hc.conditions x) (ha.conditions x)
  joins x hx := by
    cases a with
    | onJoin node condition =>
      rw [Clauses.add, addJoinCondition, List.mem_append, List.mem_singleton] at hx
      rcases hx with hx | rfl
      · exact hc.joins x hx
      · exact ha.place node condition rfl
    | _ => exact hc.joins x hx

end Clauses

/-- Handles that are accepted where others are. -/
structure Handles.Le (h h' : Handles) : Prop where
  expression : ∀ {e}, h.expression e → h'.expression e
  sub : ∀ {s}, h.sub s → h'.sub s

theorem Handles.Le.refl (h : Handles) : h.Le h := ⟨id, id⟩

/-! ## Sound queries -/

/-- What holds of a query at every stage, with the handles that the clauses of each scope may
hold. -/
structure Query.Sound (h : Nat → Handles) (q : Query) : Prop where
  owned : Owned q.graph q.scopes
  numbered : Numbered q.graph q.aliases
  clauses_length : q.clauses.length = q.scopes.size
  clauses : ∀ {s : Nat} {c : Clauses}, q.clauses[s]? = some c →
    c.Fits ⟨h s, q.graph, q.scopes, s⟩
  entities : ∀ {i n}, q.graph.node? i = some n → n.kind = .root → q.schema.isEntity n.target = true

namespace Query

variable {h h' : Nat → Handles} {q q' : Query}

theorem sound_start (h : Nat → Handles) (schema : Registry) (settings : Settings) :
    (start schema settings).Sound h where
  owned := .initial
  numbered := .empty _
  clauses_length := rfl
  clauses {s c} hc := by
    match s with
    | 0 => cases hc; exact Clauses.fits_empty _
    | _ + 1 => cases hc
  entities hn := nomatch hn

/-- The scope numbers of clauses are those of scopes. -/
theorem Sound.lt_size_of_clauses (hq : q.Sound h) {s : Nat} {c : Clauses}
    (hc : q.clauses[s]? = some c) : s < q.scopes.size :=
  hq.clauses_length ▸ (List.getElem?_eq_some_iff.1 hc).1

/-- Clauses fit as well in what has grown since. -/
theorem Sound.clauses_grow (hq : q.Sound h) (hh : ∀ s, (h s).Le (h' s)) {g : Graph} {t : Scopes}
    (ho : Owned g t) (hg : q.graph.Extends g) (ht : q.scopes.Extends t) {s : Nat} {c : Clauses}
    (hc : q.clauses[s]? = some c) : c.Fits ⟨h' s, g, t, s⟩ :=
  (hq.clauses hc).grows
    ⟨(hh s).expression, (hh s).sub, hg, ht, hq.owned, ho, rfl, hq.lt_size_of_clauses hc⟩

theorem Sound.mono (hq : q.Sound h) (hh : ∀ s, (h s).Le (h' s)) : q.Sound h' :=
  ⟨hq.owned, hq.numbered, hq.clauses_length, hq.clauses_grow hh hq.owned (.refl _) (.refl _),
    hq.entities⟩

/-- A child never stands for a `from` entry. -/
theorem childSpec_kind_ne_root (schema : Registry) (r : Resolved) :
    (childSpec schema r).kind ≠ .root := by
  unfold childSpec
  dsimp only
  split
  · simp
  · split
    · simp
    · split <;> simp

theorem reserved_isSome {a : AliasSupply} {kind : NodeKind} (h : kind ≠ .root) :
    (Graph.reserved a kind).isSome = kind.isEntity := by
  cases kind with
  | root => exact absurd rfl h
  | _ => rfl

/-- Roots stand for entities also with one more node, if that one does. -/
theorem entities_append {g g' : Graph} {n : Node} (hg : g.AppendsTo g' n)
    (he : ∀ {i m}, g.node? i = some m → m.kind = .root → q.schema.isEntity m.target = true)
    (hn : n.kind = .root → q.schema.isEntity n.target = true) {i : Nat} {m : Node}
    (hm : g'.node? i = some m) (hk : m.kind = .root) : q.schema.isEntity m.target = true := by
  rcases hg.cases hm with ⟨-, rfl⟩ | ⟨-, hm⟩
  · exact hn hk
  · exact he hm hk

theorem entities_setJoin {g : Graph} {node : Nat} {type : Join}
    (he : ∀ {i m}, g.node? i = some m → m.kind = .root → q.schema.isEntity m.target = true)
    {i : Nat} {n : Node} (hn : (g.setJoin node type).node? i = some n) (hk : n.kind = .root) :
    q.schema.isEntity n.target = true := by
  rw [Graph.node?_setJoin, Option.map_eq_some_iff] at hn
  obtain ⟨m, hm, rfl⟩ := hn
  have hm := he hm
  by_cases hi : node = i
  · rw [if_pos hi] at hk ⊢
    exact hm hk
  · rw [if_neg hi] at hk ⊢
    exact hm hk

/-- What a node is a child of that is seen is a node of the graph. -/
theorem appendsTo_withChild {h : Handles} {owner : Nat} (seen : (q.site h).Sees owner)
    (property : String) (spec : ChildSpec) :
    q.graph.AppendsTo (q.withChild owner property spec).graph
      ⟨some owner, property, spec.target, spec.kind, none, spec.identifier,
        Graph.reserved q.aliases spec.kind, q.current⟩ :=
  Graph.appendsTo_addChild seen.lt_size property spec _ q.current

/-- Each change keeps graph and scopes in agreement. -/
theorem Change.owned {h : Handles} (hc : Change h q q') (ho : Owned q.graph q.scopes) :
    Owned q'.graph q'.scopes := by
  cases hc with
  | pending | bind => exact ho
  | root type known => exact ho.addRoot type q.aliases.next
  | child owner property r seen kind new resolved =>
    obtain ⟨s, hs, henc⟩ := seen
    have hkind := childSpec_kind_ne_root q.schema r
    exact ho.addChild hs henc property _ hkind (reserved_isSome hkind)
  | join node type => exact ho.setJoin node type
  | add a fits =>
    rcases q.add_eq a with heq | ⟨_, _, _, -, -, heq⟩
    · rw [heq]; exact ho
    · rw [heq]; exact ho

/-- **Each change keeps a query sound.** -/
theorem Sound.change (hq : q.Sound h) (hc : Change (h q.current) q q') : q'.Sound h := by
  have hext := hc.extends
  have howned := hc.owned hq.owned
  have hclauses : ∀ {s : Nat} {c : Clauses}, q.clauses[s]? = some c →
      c.Fits ⟨h s, q'.graph, q'.scopes, s⟩ :=
    hq.clauses_grow (fun _ => .refl _) howned hext.graph hext.scopes
  cases hc with
  | pending | bind => exact ⟨howned, hq.numbered, hq.clauses_length, hclauses, hq.entities⟩
  | root type known =>
    have happ := Graph.appendsTo_addRoot q.graph type q.aliases.next q.current
    refine ⟨howned, hq.numbered.append_next happ rfl, ?_, hclauses,
      entities_append happ hq.entities fun _ => known⟩
    simpa [Scopes.addRoot] using hq.clauses_length
  | child owner property r seen kind new resolved =>
    have hkind := childSpec_kind_ne_root q.schema r
    have happ := appendsTo_withChild seen property (childSpec q.schema r)
    refine ⟨howned, hq.numbered.append_reserved happ rfl, ?_, hclauses,
      entities_append happ hq.entities fun hr => absurd hr hkind⟩
    rw [withChild]
    dsimp only
    split
    · exact hq.clauses_length
    · simpa [Scopes.attach] using hq.clauses_length
  | join node type own root property =>
    exact ⟨howned, hq.numbered.setJoin node type, hq.clauses_length,
      hclauses, entities_setJoin hq.entities⟩
  | add a fits =>
    rcases q.add_eq a with heq | ⟨_, _, _, -, -, heq⟩
    · rw [heq]
      refine ⟨hq.owned, hq.numbered, ?_, ?_, hq.entities⟩
      · simpa [modifyClauses] using hq.clauses_length
      · intro s c hc
        rw [clauses_modifyClauses, Option.map_eq_some_iff] at hc
        obtain ⟨c, hc, rfl⟩ := hc
        split
        · next hs =>
          subst hs
          exact (hq.clauses hc).add fits
        · exact hq.clauses hc
    · rw [heq]
      exact ⟨hq.owned, hq.numbered, hq.clauses_length, hq.clauses, hq.entities⟩

end Query

end PathQuery
