import PathQuery.Proofs.Placeholders

/-!
# No alias dangles

A reference starts with the alias of the nearest node above that owns one. That node belongs to
the scope that names it or to one around it, since scopes only grow inwards along a path. The
`from` list of its scope has an entry for it, and that list stands in the same text, since a
sub-query is rendered only inside the scope that directly encloses it. So the text that is compiled
has a part for every entry (`Declares`).

Main statement: `Reachable.nothingDangles`.
-/

namespace PathQuery

open Relation

/-! ## Where a sub-query stands -/

namespace Fragment

theorem infix_joined {f : Fragment} {fs : List Fragment} (h : f ∈ fs) (separator : String) :
    f <:+: joined separator fs := by
  induction fs with
  | nil => cases h
  | cons f' rest ih =>
    rw [joined_cons]
    rcases List.mem_cons.1 h with rfl | h
    · exact (List.prefix_append _ _).isInfix
    · have hflat := List.infix_of_mem_flatten (List.mem_map_of_mem (f := (.text separator :: ·)) h)
      exact ((List.suffix_cons _ f).isInfix.trans hflat).trans (List.suffix_append _ _).isInfix

theorem infix_flatMap {α : Type} {l : List α} {a : α} (h : a ∈ l) (w : α → Fragment) :
    w a <:+: l.flatMap w :=
  List.infix_of_mem_flatten (List.mem_map_of_mem h)

end Fragment

namespace Draft

variable {d : Draft} (sub : Nat → Fragment) {s inner : Nat} {c : Clauses}

theorem infix_testFragment {t : Test} (h : inner ∈ t.subs) :
    sub inner <:+: d.testFragment sub t := by
  cases t with
  | inSub operand scope negated =>
    obtain rfl := List.mem_singleton.1 h
    rw [testFragment]
    exact (List.suffix_cons _ _).isInfix.trans (List.infix_append _ _ _)
  | hasRows scope negated =>
    obtain rfl := List.mem_singleton.1 h
    rw [testFragment]
    exact List.infix_cons (List.prefix_append _ _).isInfix
  | compare | between | oneOf | isNull => cases h

/-- An active test stands among the conditions, after their keyword. -/
theorem exists_conditionsFragment_eq {cs : List Condition} {t : Test}
    (ht : t ∈ Condition.activeOf d.bindings cs) (keyword : String) :
    ∃ left right, d.conditionsFragment sub keyword cs =
      .text keyword :: (left ++ d.testFragment sub t ++ right) := by
  have hatom := atom_mem_conjunction.2 ht
  unfold conditionsFragment
  split
  · next hnil => rw [hnil] at hatom; cases hatom
  · obtain ⟨left, right, heq⟩ := Fragment.infix_flatMap hatom (Token.fragment (d.testFragment sub))
    exact ⟨left, right, congrArg _ heq.symm⟩

theorem infix_conditionsFragment {cs : List Condition} {t : Test}
    (ht : t ∈ Condition.activeOf d.bindings cs) (h : inner ∈ t.subs) (keyword : String) :
    sub inner <:+: d.conditionsFragment sub keyword cs := by
  obtain ⟨left, right, heq⟩ := exists_conditionsFragment_eq sub ht keyword
  rw [heq]
  exact List.infix_cons ((infix_testFragment sub h).trans (List.infix_append left _ right))

/-- A join that is emitted, with its conditions. -/
theorem exists_joinFragment_eq {i : Nat} (hi : d.Emits s i) :
    ∃ keyword, (d.graph.joinType i).keyword? = some keyword ∧ d.joinFragment sub s c i =
      .text (" " ++ keyword ++ " " ++ d.graph.joinPath i ++ " " ++ d.graph.reference i) ::
        d.conditionsFragment sub " with " (c.conditionsFor i) := by
  have howns : d.graph.ownsAlias i = true := (Bool.and_eq_true _ _ ▸ hi.joined).2
  obtain ⟨keyword, hkey⟩ := Graph.exists_keyword howns (kind?_of_isJoined hi.joined)
  refine ⟨keyword, hkey, ?_⟩
  simp only [joinFragment, hi.joined, hi.typed, hkey, Bool.not_true, Bool.false_eq_true, if_false]

theorem infix_joinFragment {i : Nat} {t : Test} (hi : d.Emits s i)
    (ht : t ∈ Condition.activeOf d.bindings (c.conditionsFor i)) (h : inner ∈ t.subs) :
    sub inner <:+: d.joinFragment sub s c i := by
  obtain ⟨keyword, -, heq⟩ := exists_joinFragment_eq sub (c := c) hi
  rw [heq]
  exact List.infix_cons (infix_conditionsFragment sub ht h " with ")

theorem infix_rootFragment {r i : Nat}
    (he : ∃ name, d.schema.entityName? (d.graph.target r) = some name)
    (hi : i ∈ (d.graph.depthFirst r).tail) :
    d.joinFragment sub s c i <:+: d.rootFragment sub s c r := by
  obtain ⟨name, hname⟩ := he
  rw [rootFragment, hname]
  exact List.infix_cons (Fragment.infix_flatMap hi _)

theorem infix_sourceFragment (ho : Owned d.graph d.scopes)
    (he : ∀ r ∈ d.scopes.roots s, ∃ name, d.schema.entityName? (d.graph.target r) = some name)
    {i : Nat} (hi : d.Emits s i) : d.joinFragment sub s c i <:+: d.sourceFragment sub s c := by
  unfold sourceFragment
  split
  · next hr => exact absurd hr hi.roots
  · rcases mem_walks ho hi.joined with ⟨r, hroot, htail⟩ | hatt
    · have hjoined := Fragment.infix_joined (List.mem_map_of_mem hroot) ", "
        (f := d.rootFragment sub s c r)
      have hin := (infix_rootFragment sub (he r hroot) htail).trans hjoined
      exact (List.infix_cons hin).trans (List.prefix_append _ _).isInfix
    · exact (Fragment.infix_flatMap hatt _).trans (List.suffix_append _ _).isInfix

theorem infix_fragment {x : Sections} {f part : Fragment} (hf : f ∈ x.toList)
    (h : part <:+: f) : part <:+: x.fragment := by
  by_cases hne : f = []
  · rw [hne, List.infix_nil] at h
    rw [h]
    exact List.nil_infix
  · have hmem : f ∈ x.toList.filter fun f => !f.isEmpty :=
      List.mem_filter.2 ⟨hf, by simpa using hne⟩
    exact h.trans (Fragment.infix_joined hmem " ")

/-- A sub-query stands in the text of the scope that embeds it. -/
theorem infix_sections (ho : Owned d.graph d.scopes)
    (he : ∀ r ∈ d.scopes.roots s, ∃ name, d.schema.entityName? (d.graph.target r) = some name)
    (h : d.Embeds s inner) (depth : Nat) :
    (d.sections depth inner).fragment <:+: (d.sections (depth + 1) s).fragment := by
  obtain ⟨t, ⟨c, hc, ht⟩, hinner⟩ := h
  rw [sections, hc]
  rcases ht with ht | ⟨i, hi, ht⟩
  · have hfilter := infix_conditionsFragment (fun i => (d.sections depth i).fragment) ht hinner
      "where "
    exact infix_fragment (by simp [Sections.toList]) hfilter
  · have hjoin := infix_joinFragment (fun i => (d.sections depth i).fragment) hi ht hinner
    exact infix_fragment (by simp [Sections.toList])
      (hjoin.trans (infix_sourceFragment _ ho he hi))

end Draft

namespace Query

variable {h : Nat → Handles} {q : Query} {s t : Nat}

/-- A scope that is rendered stands in the text of the query, with depth to spare. -/
theorem Sound.infix_rendered (hq : q.Sound h) (hr : q.Renders s) :
    ∃ depth, q.scopes.size < depth + 1 + s ∧
      (q.sections (depth + 1) s).fragment <:+: q.rendered.fragment := by
  induction hr with
  | refl => exact ⟨q.scopes.size, by omega, List.infix_refl _⟩
  | tail _ he ih =>
    obtain ⟨depth, hdepth, hin⟩ := ih
    have hlt := hq.lt_of_embeds he
    obtain ⟨depth, rfl⟩ : ∃ k, depth = k + 1 := ⟨depth - 1, by omega⟩
    exact ⟨depth, by omega, (Draft.infix_sections hq.owned hq.entityName he (depth + 1)).trans hin⟩

/-- What encloses a rendered scope is rendered. -/
theorem Sound.renders_of_encloses (hq : q.Sound h) (hr : q.Renders s)
    (ht : q.scopes.encloses t s = true) : q.Renders t := by
  induction hr with
  | refl =>
    rw [Nat.le_zero.1 (Scopes.le_of_encloses ht)]
    exact .refl
  | @tail b s hb he ih =>
    rcases Scopes.encloses_iff_outer.1 ht with rfl | ⟨p, hp, htp⟩
    · exact .tail hb he
    · have houter : q.scopes.outer? s = some b := (hq.asks_of_embeds he).2
      rw [houter] at hp
      cases hp
      exact ih htp

theorem toDraft_of_compile {out : Compiled} (hc : q.compile = .ok out) :
    q.toDraft.compile q.settings.parameterStyle = .ok out := by
  rw [compile] at hc
  split at hc
  · exact hc
  · cases hc

/-- In a query that compiles, the rendered scopes have no faults. -/
theorem Sound.sections_faultless (hq : q.Sound h) {out : Compiled} (hc : q.compile = .ok out)
    (hr : q.Renders s) {fuel : Nat} (hs : s < q.scopes.size) (hfuel : q.scopes.size < fuel + s) :
    (q.sections fuel s).Faultless := by
  have hrendered := Draft.exists_compile_iff.1 ⟨out, toDraft_of_compile hc⟩
  intro f hf e he
  obtain ⟨inner, hinner, hb⟩ := (hq.mem_sections rfl hs hfuel).1 ⟨f, hf, he⟩
  obtain ⟨f', hf', he'⟩ := (hq.mem_rendered rfl).2 ⟨inner, hr.trans hinner, hb⟩
  exact hrendered f' hf' e he'

end Query

/-! ## Declared aliases -/

namespace Query

/-- Whether a node is captured by the clauses of a scope, as an operand of its own. -/
def Captures (q : Query) (s i : Nat) : Prop :=
  ∃ c, q.clauses[s]? = some c ∧
    (.node i ∈ c.items ∨ ∃ x ∈ c.conditions, ∃ t ∈ x.tests, .node i ∈ t.operands)

/-- Whether the text of a query has the `from` list of a scope, with an entry for each node that the
scope declares: the compiled text is what stands before the list, the keyword, a text for each entry
and what stands behind the list, written one after the other. -/
def Declares (q : Query) (out : Compiled) (s : Nat) : Prop :=
  ∃ sub c before entries behind, List.Forall₂ (q.Entry sub s c) (q.declared s) entries ∧
    q.rendered.fragment = before ++ .text "from " :: entries.flatten ++ behind ∧
    q.Writes q.settings.parameterStyle out (before :: [.text "from "] :: entries ++ [behind])

/-- Whether all that a scope writes starts with an alias that is declared where it can be seen. -/
structure NothingDangles (q : Query) (out : Compiled) (s : Nat) : Prop where
  /-- The scope and those around it have their `from` lists in the compiled text. -/
  declares : ∀ t, q.scopes.encloses t s = true → q.Declares out t
  /-- A captured node is written by an alias that the scope declares, or one around it. -/
  captured : ∀ i, q.Captures s i → ∃ t a name, q.scopes.encloses t s = true ∧
    a ∈ q.declared t ∧ q.graph.alias? a = some name ∧ Headed name (q.graph.reference i)
  /-- A join starts at an alias that is declared before it, here or in a scope around this one. -/
  joins : ∀ j ∈ q.declared s, q.graph.kind? j ≠ some .root → ∃ a name,
    q.graph.alias? a = some name ∧ (∃ path, q.graph.joinPath j = name ++ "." ++ path) ∧
    ([a, j].Sublist (q.declared s) ∨
      ∃ t, t ≠ s ∧ q.scopes.encloses t s = true ∧ a ∈ q.declared t)

variable {h : Nat → Handles} {q : Query} {s t : Nat}

/-- A node that a scope captures can be seen there. -/
theorem Sound.sees_of_captures (hq : q.Sound h) {i : Nat} (hi : q.Captures s i) :
    ∃ r, q.graph.scope? i = some r ∧ q.scopes.encloses r s = true := by
  obtain ⟨c, hc, hi⟩ := hi
  have hfits := hq.clauses hc
  rcases hi with hitem | ⟨x, hx, t, ht, hop⟩
  · exact hfits.items _ hitem
  · exact (hfits.conditions x hx t ht).1 _ hop

/-- The scope of a node that owns an alias declares it. -/
theorem Sound.mem_declared (hq : q.Sound h) {a : Nat} {name : String}
    (ha : q.graph.alias? a = some name) (hs : q.graph.scope? a = some s) : a ∈ q.declared s := by
  have howns := Graph.ownsAlias_of_alias? ha
  obtain ⟨n, hn, he⟩ := Graph.isEntity_of_ownsAlias howns
  obtain ⟨m, hm, hscope⟩ := Graph.scope?_eq_some_iff.1 hs
  obtain rfl : n = m := Option.some.inj (hn.symm.trans hm)
  have horder := ((hq.owned.declarationOrder_lists s).mem_iff a).2 ⟨n, hn, he, hscope⟩
  exact List.mem_filter.2 ⟨horder, howns⟩

/-- The scope of a declared node is the one that declares it. -/
theorem Sound.scope?_of_declared (hq : q.Sound h) {a : Nat} (ha : a ∈ q.declared s) :
    q.graph.scope? a = some s := by
  obtain ⟨n, hn, -, hs⟩ :=
    ((hq.owned.declarationOrder_lists s).mem_iff a).1 (List.mem_filter.1 ha).1
  exact Graph.scope?_eq_some_iff.2 ⟨n, hn, hs⟩

/-- A declared node that is no root has a parent. -/
theorem Sound.exists_parent_of_declared (hq : q.Sound h) {j : Nat} (hj : j ∈ q.declared s)
    (hk : q.graph.kind? j ≠ some .root) : ∃ p, q.graph.parent? j = some p := by
  obtain ⟨n, hn, -⟩ := Graph.scope?_eq_some_iff.1 (hq.scope?_of_declared hj)
  cases hp : n.parent with
  | none =>
    have hroot := (hq.owned.root_iff hn).2 hp
    exact absurd (by rw [Graph.kind?, hn, Option.map_some, hroot]) hk
  | some p => exact ⟨p, Graph.parent?_eq_some_iff.2 ⟨n, hn, hp⟩⟩

/-- A scope declares a node after those above it. -/
theorem Sound.pair_sublist_declared (hq : q.Sound h) {a j : Nat} (ha : a ∈ q.declared s)
    (hj : j ∈ q.declared s) (haj : a ∈ q.graph.lineage j) (hne : a ≠ j) :
    [a, j].Sublist (q.declared s) := by
  obtain ⟨haorder, haowns⟩ := List.mem_filter.1 ha
  obtain ⟨hjorder, hjowns⟩ := List.mem_filter.1 hj
  have hlists := hq.owned.declarationOrder_lists s
  have hfilter := (hlists.sorted a j haorder hjorder haj hne).filter q.graph.ownsAlias
  rwa [List.filter_cons_of_pos haowns, List.filter_cons_of_pos hjowns, List.filter_nil] at hfilter

/-- What a visible node is written by is declared by a scope around. -/
theorem Sound.exists_declared_head (hq : q.Sound h) {i r : Nat} (hr : q.graph.scope? i = some r)
    (henc : q.scopes.encloses r s = true) : ∃ t a name, q.scopes.encloses t s = true ∧
      a ∈ q.graph.lineage i ∧ a ∈ q.declared t ∧ q.graph.alias? a = some name ∧
      Headed name (q.graph.reference i) := by
  obtain ⟨a, name, hai, hname, hhead⟩ := hq.owned.exists_head (Graph.lt_size_of_scope? hr)
  have hscope : ∃ t, q.graph.scope? a = some t := by
    obtain ⟨m, hm, -⟩ := Graph.isEntity_of_ownsAlias (Graph.ownsAlias_of_alias? hname)
    exact ⟨m.scope, Graph.scope?_eq_some_iff.2 ⟨m, hm, rfl⟩⟩
  obtain ⟨t, ht⟩ := hscope
  have htr := hq.owned.encloses_of_mem_lineage hai ht hr
  exact ⟨t, a, name, Scopes.encloses_trans htr henc, hai, hq.mem_declared hname ht, hname, hhead⟩

theorem Sound.declares (hq : q.Sound h) {out : Compiled} (hc : q.compile = .ok out)
    (hr : q.Renders s) (hs : s < q.scopes.size) : q.Declares out s := by
  obtain ⟨depth, hdepth, hin⟩ := hq.infix_rendered hr
  obtain ⟨c, hclauses⟩ := hq.exists_clauses hs
  have hfree := hq.sections_faultless hc hr hs hdepth
  rw [Draft.sections, hclauses] at hfree hin
  obtain ⟨entries, hentries, heq⟩ := Draft.source_eq hq.owned
    (hfree _ (List.mem_cons_of_mem _ List.mem_cons_self))
  have hlist : .text "from " :: entries.flatten <:+: q.rendered.fragment := by
    refine List.IsInfix.trans ?_ hin
    exact heq ▸ Draft.infix_fragment (by simp [Sections.toList]) (List.infix_refl _)
  obtain ⟨before, behind, hwhole⟩ := hlist
  refine ⟨_, c, before, entries, behind, hentries, hwhole.symm, ?_⟩
  apply Draft.writes_of_flatten (toDraft_of_compile hc)
  rw [← hwhole]
  simp

/-- A join of a scope starts at an alias that is declared before it, here or further out. -/
theorem Sound.joins_declared (hq : q.Sound h) {j : Nat} (hj : j ∈ q.declared s)
    (hk : q.graph.kind? j ≠ some .root) : ∃ a name, q.graph.alias? a = some name ∧
      (∃ path, q.graph.joinPath j = name ++ "." ++ path) ∧
      ([a, j].Sublist (q.declared s) ∨
        ∃ t, t ≠ s ∧ q.scopes.encloses t s = true ∧ a ∈ q.declared t) := by
  have hjs := hq.scope?_of_declared hj
  obtain ⟨p, hp⟩ := hq.exists_parent_of_declared hj hk
  obtain ⟨r, hr⟩ := Owned.scope?_parent hp
  obtain ⟨t, a, name, henc, hap, ha, hname, hhead⟩ :=
    hq.exists_declared_head hr (hq.owned.nested hp hjs hr)
  refine ⟨a, name, hname, ?_, ?_⟩
  · rw [Graph.joinPath, hp]
    exact hhead.segment _
  · by_cases hts : t = s
    · subst hts
      have hne : a ≠ j := by
        rintro rfl
        exact absurd (q.graph.ancestry.le_of_mem_chain hap) (Nat.not_le.2 (Graph.parent?_lt hp))
      exact Or.inl (hq.pair_sublist_declared ha hj (q.graph.ancestry.mem_chain_of_up hp hap) hne)
    · exact Or.inr ⟨t, hts, henc, ha⟩

end Query

/-! ## Runs -/

namespace Stage

/-- **No alias dangles.** -/
theorem Reachable.nothingDangles {s : Stage} (h : s.Reachable) {out : Compiled}
    (hc : s.query.compile = .ok out) {scope : Nat} (hr : s.query.Renders scope) :
    s.query.NothingDangles out scope where
  declares t ht := by
    have hq := h.sound.query
    have hrt := hq.renders_of_encloses hr ht
    refine hq.declares hc hrt ?_
    rcases ReflTransGen.cases_tail hrt with rfl | ⟨outer, -, he⟩
    · exact Nat.lt_of_le_of_lt (Nat.zero_le _) s.query.scopes.current_lt
    · exact (hq.lt_of_embeds he).2
  captured i hi := by
    obtain ⟨r, hr, henc⟩ := h.sound.query.sees_of_captures hi
    obtain ⟨t, a, name, ht, -, ha, hname, hhead⟩ := h.sound.query.exists_declared_head hr henc
    exact ⟨t, a, name, ht, ha, hname, hhead⟩
  joins j hj hk := h.sound.query.joins_declared hj hk

theorem sample_nothingDangles : sample.Reachable ∧ sample.query.Renders 1 ∧
    ∃ out, sample.query.compile = .ok out ∧ sample.query.NothingDangles out 1 := by
  have hr : sample.query.Renders 1 := Draft.renders_of_filter (by decide +kernel)
  have hreach : sample.Reachable := reachable_start _ _ _
  obtain ⟨out, hout⟩ := exists_compile_sample
  exact ⟨hreach, hr, out, hout, Reachable.nothingDangles hreach hout hr⟩

end Stage

end PathQuery
