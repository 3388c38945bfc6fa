import PathQuery.Proofs.Active
import PathQuery.Proofs.Reachable
import PathQuery.Proofs.Declaration
import PathQuery.Proofs.Reference

/-!
# What a text is made of

A scope *embeds* the sub-queries of its active tests, those of the `where` list and those of the
conditions of the joins that it emits. The scopes that are rendered (`Renders`) are the outermost
one and all that are embedded from there, and each of them *shows* the operands of its select
list, its grouping and its ordering and those of its active tests. So every slot and every fault of
a text comes from an operand that a rendered scope shows, or from the joins and roots of the scope.

A sub-query is embedded only in the scope that directly encloses it, which has a smaller number.
So the depth up to which sub-queries are rendered is never reached.

Main statement: `Sound.mem_rendered`.
-/

namespace PathQuery

open Relation

/-! ## Rendered scopes -/

namespace Draft

/-- The conditions that a scope has for the join of a node. -/
def conditionsOn (d : Draft) (s i : Nat) : List Condition :=
  ((d.clauses[s]?).map (·.conditionsFor i)).getD []

theorem mem_conditionsOn {d : Draft} {s i : Nat} {x : Condition} : x ∈ d.conditionsOn s i ↔
    ∃ c, d.clauses[s]? = some c ∧ (i, x) ∈ c.joinConditions := by
  rw [conditionsOn]
  cases d.clauses[s]? with
  | none => simp
  | some c => simp [Clauses.conditionsFor]

/-- Whether a scope emits the join of a node. Without a root it emits none. -/
structure Emits (d : Draft) (s i : Nat) : Prop where
  roots : d.scopes.roots s ≠ []
  joined : d.isJoined s i = true
  typed : d.needsJoinType s i = false

/-- Whether a test is an active one of a scope. -/
def Tests (d : Draft) (s : Nat) (t : Test) : Prop :=
  ∃ c, d.clauses[s]? = some c ∧
    (t ∈ Condition.activeOf d.bindings c.restrictions ∨
      ∃ i, d.Emits s i ∧ t ∈ Condition.activeOf d.bindings (c.conditionsFor i))

/-- Whether an operand stands in the text of a scope, apart from its sub-queries. -/
def Shows (d : Draft) (s : Nat) (o : Operand Nat) : Prop :=
  (∃ c, d.clauses[s]? = some c ∧ o ∈ c.items) ∨ ∃ t, d.Tests s t ∧ o ∈ t.rendered

/-- Whether a sub-query stands in the text of a scope. -/
def Embeds (d : Draft) (s inner : Nat) : Prop := ∃ t, d.Tests s t ∧ inner ∈ t.subs

/-- Whether a scope stands in the text of the query. -/
def Renders (d : Draft) (s : Nat) : Prop := ReflTransGen d.Embeds 0 s

/-- A sub-query that an active test of the outermost `where` list holds is rendered. -/
theorem renders_of_filter {d : Draft} {inner : Nat}
    (h : (d.clauses[0]?).any (fun c =>
      ((Condition.activeOf d.bindings c.restrictions).flatMap Test.subs).contains inner) = true) :
    d.Renders inner := by
  obtain ⟨c, hc, hmem⟩ := (Option.any_eq_true _ _).1 h
  obtain ⟨t, ht, hsub⟩ := List.mem_flatMap.1 (List.contains_iff_mem.1 hmem)
  exact .single ⟨t, ⟨c, hc, Or.inl ht⟩, hsub⟩

/-- The pieces that a scope brings into a text by itself, apart from text. -/
inductive Brings (d : Draft) (s : Nat) (p : Piece) : Prop
  | operand (o : Operand Nat) (shown : d.Shows s o) (mem : p ∈ d.operandFragment o)
  | noRoots (roots : d.scopes.roots s = []) (eq : p = .fault .noRoots)
  | untyped (i : Nat) (roots : d.scopes.roots s ≠ []) (joined : d.isJoined s i = true)
    (needs : d.needsJoinType s i = true)
    (eq : p = .fault (.joinTypeRequired (d.graph.describe i)))

end Draft

/-! ## The sections of a scope -/

namespace Draft

variable {d : Draft} {sub : Nat → Fragment} {p : Piece} {s : Nat} {c : Clauses}

theorem mem_projectionFragment (hp : p.isText = false) (x : Projection) :
    p ∈ d.projectionFragment x ↔ p ∈ d.operandFragment x.operand := by
  have hne := Piece.ne_text hp
  cases x with
  | node i => rfl
  | aggregate func distinct i =>
    rw [projectionFragment, Expression.fragment, operandFragment, Projection.operand]
    simp [hne]
  | expression o => rfl

/-- A node of the graph brings nothing but text. -/
theorem not_mem_nodeFragment {g : Graph} (hp : p.isText = false) {i : Nat} (hi : i < g.size) :
    p ∉ g.nodeFragment i := by
  rw [Graph.nodeFragment, if_pos hi, List.mem_singleton]
  rintro rfl
  cases hp

theorem mem_selectFragment (hp : p.isText = false) (hr : ∀ r ∈ d.scopes.roots s, r < d.graph.size) :
    p ∈ d.selectFragment s c ↔ ∃ x ∈ c.projections, p ∈ d.operandFragment x.operand := by
  have hne := Piece.ne_text hp
  unfold selectFragment
  split
  · next h _ => simp [h]
  · next h _ =>
    have hroots : ∀ r ∈ d.scopes.roots s, p ∉ d.graph.nodeFragment r := fun r hroot =>
      not_mem_nodeFragment hp (hr r hroot)
    simpa [h, hne, Fragment.mem_joined hp] using hroots
  · simp [hne, Fragment.mem_joined hp, mem_projectionFragment hp, -List.map_cons]

theorem mem_groupingFragment (hp : p.isText = false) :
    p ∈ d.groupingFragment c ↔ ∃ o ∈ c.groupBy, p ∈ d.operandFragment o := by
  have hne := Piece.ne_text hp
  unfold groupingFragment
  split
  · next h => simp [h]
  · simp [hne, Fragment.mem_joined hp]

theorem mem_orderingFragment (hp : p.isText = false) :
    p ∈ d.orderingFragment c ↔ ∃ x ∈ c.orderBy, p ∈ d.operandFragment x.operand := by
  have hne := Piece.ne_text hp
  unfold orderingFragment
  split
  · next h => simp [h]
  · simp [hne, Fragment.mem_joined hp]

/-- A scope joins no root. -/
theorem kind?_of_isJoined {i : Nat} (h : d.isJoined s i = true) : d.graph.kind? i ≠ some .root := by
  intro hk
  obtain ⟨n, hn, hroot⟩ := Option.map_eq_some_iff.1 hk
  simp [isJoined, hn, hroot] at h

theorem mem_joinFragment (hp : p.isText = false) {i : Nat} :
    p ∈ d.joinFragment sub s c i ↔
      (d.isJoined s i = true ∧ d.needsJoinType s i = true ∧
        p = .fault (.joinTypeRequired (d.graph.describe i))) ∨
      (d.isJoined s i = true ∧ d.needsJoinType s i = false ∧
        ∃ t ∈ Condition.activeOf d.bindings (c.conditionsFor i), p ∈ d.testFragment sub t) := by
  have hne := Piece.ne_text hp
  rw [joinFragment]
  cases hj : d.isJoined s i with
  | false => simp
  | true =>
    have howns : d.graph.ownsAlias i = true := (Bool.and_eq_true _ _ ▸ hj).2
    obtain ⟨keyword, hkey⟩ := Graph.exists_keyword howns (kind?_of_isJoined hj)
    cases d.needsJoinType s i with
    | true => simp
    | false => simp [hkey, hne, mem_conditionsFragment hp]

/-- Every node that a scope joins is met by the walks under its roots and its attached nodes. -/
theorem mem_walks (ho : Owned d.graph d.scopes) {i : Nat} (h : d.isJoined s i = true) :
    (∃ r ∈ d.scopes.roots s, i ∈ (d.graph.depthFirst r).tail) ∨
      i ∈ (d.scopes.attached s).flatMap d.graph.depthFirst := by
  have hs : d.graph.scope? i = some s := by
    rw [isJoined, Bool.and_eq_true, Option.any_eq_true] at h
    obtain ⟨⟨n, hn, hscope⟩, -⟩ := h
    rw [Bool.and_eq_true, beq_iff_eq] at hscope
    exact Graph.scope?_eq_some_iff.2 ⟨n, hn, hscope.1⟩
  obtain ⟨a, ha, hai⟩ := ho.exists_start hs
  have hwalk : i ∈ d.graph.depthFirst a := by
    rw [Graph.depthFirst_eq (ho.lt_size_of_start ha)]
    exact Graph.mem_preorder.2 hai
  rcases List.mem_append.1 ha with hroot | hatt
  · refine Or.inl ⟨a, hroot, ?_⟩
    have hne : i ≠ a := by
      rintro rfl
      obtain ⟨n, hn, hk, -⟩ := ho.exists_root hroot
      exact kind?_of_isJoined h (by rw [Graph.kind?, hn, Option.map_some, hk])
    rw [Graph.depthFirst_eq (ho.lt_size_of_start ha), Graph.preorder_eq] at hwalk ⊢
    exact (List.mem_cons.1 hwalk).resolve_left hne
  · exact Or.inr (List.mem_flatMap.2 ⟨a, hatt, hwalk⟩)

theorem mem_rootFragment (hp : p.isText = false) {r : Nat}
    (he : ∃ name, d.schema.entityName? (d.graph.target r) = some name) :
    p ∈ d.rootFragment sub s c r ↔
      ∃ i ∈ (d.graph.depthFirst r).tail, p ∈ d.joinFragment sub s c i := by
  obtain ⟨name, hname⟩ := he
  simp [rootFragment, hname, Piece.ne_text hp]

/-- The pieces of a `from` list are those of the joins of the scope. -/
theorem mem_sourceFragment (hp : p.isText = false) (ho : Owned d.graph d.scopes)
    (he : ∀ r ∈ d.scopes.roots s, ∃ name, d.schema.entityName? (d.graph.target r) = some name) :
    p ∈ d.sourceFragment sub s c ↔
      (d.scopes.roots s = [] ∧ p = .fault .noRoots) ∨
      (d.scopes.roots s ≠ [] ∧ ∃ i, p ∈ d.joinFragment sub s c i) := by
  have hne := Piece.ne_text hp
  have hjoined : ∀ {i}, p ∈ d.joinFragment sub s c i → d.isJoined s i = true := by
    intro i hi
    cases hj : d.isJoined s i with
    | true => rfl
    | false => simp [joinFragment, hj] at hi
  unfold sourceFragment
  split
  · next hr => simp [hr]
  · next hr =>
    simp only [List.cons_append, List.mem_cons, hne, false_or, List.mem_append,
      Fragment.mem_joined hp, List.mem_map, exists_exists_and_eq_and, List.mem_flatMap]
    constructor
    · rintro (⟨r, hroot, hpr⟩ | ⟨i, -, hj⟩)
      · obtain ⟨i, -, hj⟩ := (mem_rootFragment hp (he r hroot)).1 hpr
        exact Or.inr ⟨hr, i, hj⟩
      · exact Or.inr ⟨hr, i, hj⟩
    · rintro (⟨hnone, -⟩ | ⟨-, i, hj⟩)
      · exact absurd hnone hr
      · rcases mem_walks ho (hjoined hj) with ⟨r, hroot, hi⟩ | hi
        · exact Or.inl ⟨r, hroot, (mem_rootFragment hp (he r hroot)).2 ⟨i, hi, hj⟩⟩
        · exact Or.inr ⟨i, List.mem_flatMap.1 hi, hj⟩

theorem mem_fragment (hp : p.isText = false) (x : Sections) :
    p ∈ x.fragment ↔ ∃ f ∈ x.toList, p ∈ f := by
  rw [Sections.fragment, Fragment.mem_joined hp]
  constructor
  · rintro ⟨f, hf, hpf⟩
    exact ⟨f, (List.mem_filter.1 hf).1, hpf⟩
  · rintro ⟨f, hf, hpf⟩
    have hne : f ≠ [] := List.ne_nil_of_mem hpf
    exact ⟨f, List.mem_filter.2 ⟨hf, by simpa using hne⟩, hpf⟩

/-- What the active tests of a scope bring: their operands and their sub-queries. -/
theorem brings_of_test (hp : p.isText = false) {t : Test} (ht : d.Tests s t)
    (h : p ∈ d.testFragment sub t) : d.Brings s p ∨ ∃ inner, d.Embeds s inner ∧ p ∈ sub inner := by
  rcases (mem_testFragment hp t).1 h with ⟨o, ho, hpo⟩ | ⟨inner, hinner, hpi⟩
  · exact Or.inl (.operand o (Or.inr ⟨t, ht, ho⟩) hpo)
  · exact Or.inr ⟨inner, ⟨t, ht, hinner⟩, hpi⟩

/-- An active test stands in the conditions of a join or in the `where` list. -/
theorem mem_of_tests (hp : p.isText = false) (hc : d.clauses[s]? = some c) {t : Test}
    (ht : d.Tests s t) (h : p ∈ d.testFragment sub t) :
    (d.scopes.roots s ≠ [] ∧ ∃ i, p ∈ d.joinFragment sub s c i) ∨
      ∃ t ∈ Condition.activeOf d.bindings c.restrictions, p ∈ d.testFragment sub t := by
  obtain ⟨c', hc', ht⟩ := ht
  obtain rfl : c = c' := Option.some.inj (hc.symm.trans hc')
  rcases ht with ht | ⟨i, hi, ht⟩
  · exact Or.inr ⟨t, ht, h⟩
  · have hj : p ∈ d.joinFragment sub s c i :=
      (mem_joinFragment hp).2 (Or.inr ⟨hi.joined, hi.typed, t, ht, h⟩)
    exact Or.inl ⟨hi.roots, i, hj⟩

/-- The sections of a scope that has clauses. -/
def sectionsWith (d : Draft) (sub : Nat → Fragment) (s : Nat) (c : Clauses) : Sections :=
  ⟨d.selectFragment s c, d.sourceFragment sub s c,
    d.conditionsFragment sub "where " c.restrictions, d.groupingFragment c, d.orderingFragment c⟩

theorem sections_succ (hc : d.clauses[s]? = some c) (fuel : Nat) : d.sections (fuel + 1) s =
    d.sectionsWith (fun inner => (d.sections fuel inner).fragment) s c := by
  rw [sections, hc]
  rfl

/-- The pieces of the sections of a scope, section by section. -/
theorem mem_sectionsWith (hp : p.isText = false) (ho : Owned d.graph d.scopes)
    (he : ∀ r ∈ d.scopes.roots s, ∃ name, d.schema.entityName? (d.graph.target r) = some name) :
    (∃ f ∈ (d.sectionsWith sub s c).toList, p ∈ f) ↔
      (∃ o ∈ c.items, p ∈ d.operandFragment o) ∨
      (d.scopes.roots s = [] ∧ p = .fault .noRoots) ∨
      (d.scopes.roots s ≠ [] ∧ ∃ i, p ∈ d.joinFragment sub s c i) ∨
      ∃ t ∈ Condition.activeOf d.bindings c.restrictions, p ∈ d.testFragment sub t := by
  have hr : ∀ r ∈ d.scopes.roots s, r < d.graph.size := fun r hr =>
    ho.lt_size_of_start (s := s) (List.mem_append_left _ hr)
  have hitems : (∃ o ∈ c.items, p ∈ d.operandFragment o) ↔
      (∃ x ∈ c.projections, p ∈ d.operandFragment x.operand) ∨
        (∃ o ∈ c.groupBy, p ∈ d.operandFragment o) ∨
        ∃ x ∈ c.orderBy, p ∈ d.operandFragment x.operand := by
    simp only [Clauses.mem_items, or_and_right, exists_or, exists_exists_and_eq_and]
  simp only [sectionsWith, Sections.toList, List.mem_cons, List.not_mem_nil, or_false,
    exists_eq_or_imp, exists_eq_left, mem_selectFragment hp hr, mem_sourceFragment hp ho he,
    mem_conditionsFragment hp, mem_groupingFragment hp, mem_orderingFragment hp, hitems]
  exact Eq.to_iff (by ac_rfl)

/-- The pieces of a scope are its own and those of the sub-queries that it embeds. -/
theorem sectionsWith_brings (hp : p.isText = false) (ho : Owned d.graph d.scopes)
    (he : ∀ r ∈ d.scopes.roots s, ∃ name, d.schema.entityName? (d.graph.target r) = some name)
    (hc : d.clauses[s]? = some c) : (∃ f ∈ (d.sectionsWith sub s c).toList, p ∈ f) ↔
      d.Brings s p ∨ ∃ inner, d.Embeds s inner ∧ p ∈ sub inner := by
  rw [mem_sectionsWith hp ho he]
  constructor
  · rintro (⟨o, hitem, hpo⟩ | ⟨hnone, heq⟩ | ⟨hroots, i, hj⟩ | ⟨t, ht, hpt⟩)
    · exact Or.inl (.operand o (Or.inl ⟨c, hc, hitem⟩) hpo)
    · exact Or.inl (.noRoots hnone heq)
    · rcases (mem_joinFragment hp).1 hj with ⟨hjoin, hneeds, heq⟩ | ⟨hjoin, htyped, t, ht, hpt⟩
      · exact Or.inl (.untyped i hroots hjoin hneeds heq)
      · exact brings_of_test hp ⟨c, hc, Or.inr ⟨i, ⟨hroots, hjoin, htyped⟩, ht⟩⟩ hpt
    · exact brings_of_test hp ⟨c, hc, Or.inl ht⟩ hpt
  · rintro (hb | ⟨inner, ⟨t, ht, hinner⟩, hpi⟩)
    · cases hb with
      | operand o shown hpo =>
        rcases shown with ⟨c', hc', hitem⟩ | ⟨t, ht, hto⟩
        · obtain rfl : c = c' := Option.some.inj (hc.symm.trans hc')
          exact Or.inl ⟨o, hitem, hpo⟩
        · have hpt : p ∈ d.testFragment sub t := (mem_testFragment hp t).2 (Or.inl ⟨o, hto, hpo⟩)
          exact Or.inr (Or.inr (mem_of_tests hp hc ht hpt))
      | noRoots hnone heq => exact Or.inr (Or.inl ⟨hnone, heq⟩)
      | untyped i hroots hjoin hneeds heq =>
        have hj : p ∈ d.joinFragment sub s c i :=
          (mem_joinFragment hp).2 (Or.inl ⟨hjoin, hneeds, heq⟩)
        exact Or.inr (Or.inr (Or.inl ⟨hroots, i, hj⟩))
    · have hpt : p ∈ d.testFragment sub t := (mem_testFragment hp t).2 (Or.inr ⟨inner, hinner, hpi⟩)
      exact Or.inr (Or.inr (mem_of_tests hp hc ht hpt))

end Draft

/-! ## Sound queries -/

namespace Query

variable {h : Nat → Handles} {q : Query} {p : Piece} {s inner : Nat}

theorem Sound.entityName (hq : q.Sound h) :
    ∀ r ∈ q.scopes.roots s, ∃ name, q.schema.entityName? (q.graph.target r) = some name := by
  intro r hr
  obtain ⟨n, hn, hk, -⟩ := hq.owned.exists_root hr
  have hentity := hq.entities hn hk
  rw [Registry.isEntity, Option.any_eq_true] at hentity
  obtain ⟨t, ht, hkind⟩ := hentity
  rw [beq_iff_eq] at hkind
  exact ⟨t.entityName, by simp [Registry.entityName?, Graph.target, hn, ht, hkind]⟩

theorem Sound.exists_clauses (hq : q.Sound h) (hs : s < q.scopes.size) :
    ∃ c, q.clauses[s]? = some c :=
  ⟨_, List.getElem?_eq_getElem (hq.clauses_length ▸ hs)⟩

/-- A node whose join has conditions was joined by the scope. -/
theorem Sound.joins_of_condition (hq : q.Sound h) {i : Nat} {x : Condition}
    (hx : x ∈ q.conditionsOn s i) : ∃ n, q.graph.node? i = some n ∧ n.scope = s ∧
      n.kind.reservesAlias = true ∧ n.join.isSome = true := by
  obtain ⟨c, hc, hx⟩ := Draft.mem_conditionsOn.1 hx
  exact ((hq.clauses hc).joins (i, x) hx).1

/-- The active tests of a scope fit it. -/
theorem Sound.test_fits (hq : q.Sound h) {t : Test} (ht : q.Tests s t) :
    t.Fits ⟨h s, q.graph, q.scopes, s⟩ := by
  obtain ⟨c, hc, ht⟩ := ht
  have hfits := hq.clauses hc
  have hcond : ∃ x ∈ c.conditions, t ∈ x.tests := by
    rw [Clauses.conditions]
    rcases ht with ht | ⟨i, -, ht⟩
    · obtain ⟨x, hx, hxt⟩ := Condition.mem_testsOf.1 (Condition.mem_testsOf_of_activeOf _ ht)
      exact ⟨x, List.mem_append_left _ hx, hxt⟩
    · obtain ⟨x, hx, hxt⟩ := Condition.mem_testsOf.1 (Condition.mem_testsOf_of_activeOf _ ht)
      obtain ⟨y, hy, rfl⟩ := List.mem_map.1 hx
      have hy := (List.mem_filter.1 hy).1
      exact ⟨y.2, List.mem_append_right _ (List.mem_map_of_mem hy), hxt⟩
  obtain ⟨x, hx, hxt⟩ := hcond
  exact hfits.conditions x hx t hxt

/-- What a scope shows fits it. -/
theorem Sound.fits_of_shows (hq : q.Sound h) {o : Operand Nat} (ho : q.Shows s o) :
    o.Fits ⟨h s, q.graph, q.scopes, s⟩ := by
  rcases ho with ⟨c, hc, hitem⟩ | ⟨t, ht, hot⟩
  · exact (hq.clauses hc).items o hitem
  · exact (hq.test_fits ht).1 o (Test.mem_operands_of_rendered hot)

/-- A sub-query that a scope embeds was handed out, and is directly inside the scope. -/
theorem Sound.asks_of_embeds (hq : q.Sound h) (he : q.Embeds s inner) :
    Site.Asks ⟨h s, q.graph, q.scopes, s⟩ inner := by
  obtain ⟨t, ht, hinner⟩ := he
  exact (hq.test_fits ht).2 inner hinner

theorem Sound.lt_of_embeds (hq : q.Sound h) (he : q.Embeds s inner) :
    s < inner ∧ inner < q.scopes.size := by
  have ho : q.scopes.outer? inner = some s := (hq.asks_of_embeds he).2
  refine ⟨Scopes.outer?_lt ho, ?_⟩
  obtain ⟨x, hx, -⟩ := Option.bind_eq_some_iff.1 ho
  exact (List.getElem?_eq_some_iff.1 hx).1

/-- **What a text is made of.** The pieces of a scope, with sub-queries up to a depth that is
enough, are those that the scopes embedded in it bring. -/
theorem Sound.mem_sections (hq : q.Sound h) (hp : p.isText = false) {fuel : Nat}
    (hs : s < q.scopes.size) (hfuel : q.scopes.size < fuel + s) :
    (∃ f ∈ (q.sections fuel s).toList, p ∈ f) ↔
      ∃ inner, ReflTransGen q.Embeds s inner ∧ q.Brings inner p := by
  induction fuel generalizing s with
  | zero => exact absurd hfuel (by omega)
  | succ fuel ih =>
    obtain ⟨c, hc⟩ := hq.exists_clauses hs
    rw [Draft.sections_succ hc, Draft.sectionsWith_brings hp hq.owned hq.entityName hc]
    constructor
    · rintro (hb | ⟨inner, he, hpi⟩)
      · exact ⟨s, .refl, hb⟩
      · have hlt := hq.lt_of_embeds he
        have hinner := (Draft.mem_fragment hp _).1 hpi
        obtain ⟨last, hlast, hb⟩ := (ih hlt.2 (by omega)).1 hinner
        exact ⟨last, .head he hlast, hb⟩
    · rintro ⟨last, hlast, hb⟩
      rcases ReflTransGen.cases_head hlast with rfl | ⟨inner, he, hrest⟩
      · exact Or.inl hb
      · have hlt := hq.lt_of_embeds he
        have hinner := (ih hlt.2 (by omega)).2 ⟨last, hrest, hb⟩
        exact Or.inr ⟨inner, he, (Draft.mem_fragment hp _).2 hinner⟩

theorem Sound.mem_rendered (hq : q.Sound h) (hp : p.isText = false) :
    (∃ f ∈ q.rendered.toList, p ∈ f) ↔ ∃ s, q.Renders s ∧ q.Brings s p :=
  hq.mem_sections hp (Nat.lt_of_le_of_lt (Nat.zero_le _) q.scopes.current_lt) (by omega)

end Query

end PathQuery
