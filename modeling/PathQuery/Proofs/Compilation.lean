import PathQuery.Proofs.Rendered
import PathQuery.Proofs.Source

/-!
# When a query compiles

A query that is built with its own handles only can fail to compile for five reasons (`Lacks`):
an access was left pending, there is no root, a join that has to name its type does not, a named
parameter is not bound, or a raw text has not as many values as marks. The last three count only
for scopes that are rendered and operands that they show.

That nothing else goes wrong rests on what holds at every stage: a node that is named exists,
roots stand for entities, and a sub-query that is tested was handed out, so it has a root and is
directly inside the scope that tests it.

Main statement: `compiles_iff`.
-/

namespace PathQuery

/-! ## Faults of leaves -/

theorem splitMarks_ne_nil (cs : List Char) : splitMarks cs ≠ [] := by
  cases cs with
  | nil => exact List.cons_ne_nil _ _
  | cons c cs =>
    rw [splitMarks]
    split
    · exact List.cons_ne_nil _ _
    · split <;> exact List.cons_ne_nil _ _

/-- There is one part more than there are question marks. -/
theorem length_splitMarks (cs : List Char) : (splitMarks cs).length = cs.count '?' + 1 := by
  induction cs with
  | nil => rfl
  | cons c cs ih =>
    rw [splitMarks]
    by_cases hc : c = '?'
    · rw [if_pos hc, List.length_cons, ih, hc, List.count_cons_self]
    · rw [if_neg hc, List.count_cons_of_ne hc]
      cases hs : splitMarks cs with
      | nil => exact absurd hs (splitMarks_ne_nil cs)
      | cons part parts =>
        rw [hs] at ih
        exact ih

theorem faultless_weave (parts : List (List Char)) (vs : List Value) :
    (weave parts vs).Faultless := by
  induction parts generalizing vs with
  | nil => cases vs <;> simp [weave, Fragment.Faultless]
  | cons part parts ih =>
    cases vs with
    | nil => simp [weave, Fragment.Faultless]
    | cons v vs =>
      rw [weave, Fragment.faultless_cons, Fragment.faultless_cons]
      exact ⟨by simp, by simp, ih vs⟩

theorem fault_mem_rawFragment {text : String} {values : List Value} {e : Error} :
    .fault e ∈ rawFragment text values ↔ text.toList.count '?' ≠ values.length ∧
      e = .markerCount text (text.toList.count '?') values.length := by
  rw [rawFragment]
  simp only [length_splitMarks, Nat.add_right_cancel_iff, Nat.add_sub_cancel]
  split
  · next h => simp [h, faultless_weave _ _ e]
  · next h => simp [h]

/-! ## What a query can lack -/

/-- Whether a scope has to join a node by a type that is not set: it created the node, which is no
root and owns an alias, under an entity of another scope. -/
def Draft.LacksJoinType (d : Draft) (s i : Nat) : Prop :=
  ∃ n p, d.graph.node? i = some n ∧ n.scope = s ∧ n.kind ≠ .root ∧ d.graph.ownsAlias i = true ∧
    n.join = none ∧ n.parent = some p ∧ d.graph.scope? (d.graph.nearestEntity p) ≠ some s

theorem Draft.lacksJoinType_iff {d : Draft} {s i : Nat} : d.LacksJoinType s i ↔
    d.isJoined s i = true ∧ d.needsJoinType s i = true := by
  rw [LacksJoinType, isJoined, needsJoinType, Graph.parent?]
  cases hn : d.graph.node? i with
  | none => simp
  | some n =>
    cases hp : n.parent with
    | none => simp [hp]
    | some p =>
      simp [hp]
      tauto

namespace Query

/-- What keeps a query from being compiled, with the error that it gives. -/
inductive Lacks (q : Query) : Error → Prop
  | capture (pending : q.pending.isEmpty = false) : Lacks q (.danglingAccess q.pendingPaths)
  | root (roots : q.scopes.roots 0 = []) : Lacks q .noRoots
  | joinType {s i} (rendered : q.Renders s) (lacks : q.LacksJoinType s i) :
    Lacks q (.joinTypeRequired (q.graph.describe i))
  | binding {s o name} (rendered : q.Renders s) (shown : q.Shows s o)
    (leaf : .parameter name ∈ o.leaves) (unbound : q.bindings.get? name = none) :
    Lacks q (.unboundParameter name)
  | values {s o text vs} (rendered : q.Renders s) (shown : q.Shows s o)
    (leaf : .raw text vs ∈ o.leaves) (count : text.toList.count '?' ≠ vs.length) :
    Lacks q (.markerCount text (text.toList.count '?') vs.length)

/-- Whether a query has all that it takes to compile it. -/
structure Complete (q : Query) : Prop where
  captured : q.pending.isEmpty = true
  root : q.scopes.roots 0 ≠ []
  joinTypes : ∀ s, q.Renders s → ∀ i, ¬ q.LacksJoinType s i
  bindings : ∀ s, q.Renders s → ∀ o, q.Shows s o → ∀ name, .parameter name ∈ o.leaves →
    ∃ v, q.bindings.get? name = some v
  values : ∀ s, q.Renders s → ∀ o, q.Shows s o → ∀ text vs, .raw text vs ∈ o.leaves →
    text.toList.count '?' = vs.length

theorem complete_iff {q : Query} : q.Complete ↔ ∀ e, ¬ q.Lacks e := by
  constructor
  · rintro hc e he
    cases he with
    | capture hp => rw [hc.captured] at hp; cases hp
    | root hr => exact hc.root hr
    | joinType hs hl => exact hc.joinTypes _ hs _ hl
    | binding hs ho hl hu =>
      obtain ⟨v, hv⟩ := hc.bindings _ hs _ ho _ hl
      rw [hu] at hv
      cases hv
    | values hs ho hl hm => exact hm (hc.values _ hs _ ho _ _ hl)
  · intro h
    refine ⟨?_, fun hr => h _ (.root hr), fun s hs i hl => h _ (.joinType hs hl), ?_, ?_⟩
    · by_contra hp
      exact h _ (.capture (Bool.eq_false_iff.2 hp))
    · intro s hs o ho name hl
      by_contra hu
      refine h _ (.binding hs ho hl ?_)
      cases hv : q.bindings.get? name with
      | none => rfl
      | some v => exact absurd ⟨v, hv⟩ hu
    · intro s hs o ho text vs hl
      by_contra hm
      exact h _ (.values hs ho hl hm)

end Query

/-! ## Faults of a query -/

namespace Stage

variable {s : Stage} {scope : Nat} {e : Error}

/-- A node in an operand that is shown is one of the query. -/
theorem Sound.lt_size_of_leaf (hs : s.Sound fun _ => s.own) {o : Operand Nat}
    (ho : s.query.Shows scope o) {i : Nat} (hi : .node i ∈ o.leaves) :
    i < s.query.graph.size := by
  have hfits := hs.query.fits_of_shows ho
  cases o with
  | node j =>
    obtain rfl : i = j := by simpa [Operand.leaves] using hi
    exact Site.Sees.lt_size hfits
  | value v => simp [Operand.leaves] at hi
  | parameter name => simp [Operand.leaves] at hi
  | expression x => exact hfits i hi

/-- A scope that is rendered has a root, except perhaps the outermost one. -/
theorem Sound.roots_of_renders (hs : s.Sound fun _ => s.own) (hr : s.query.Renders scope) :
    scope = 0 ∨ s.query.scopes.roots scope ≠ [] := by
  rcases Relation.ReflTransGen.cases_tail hr with rfl | ⟨outer, -, he⟩
  · exact Or.inl rfl
  · exact Or.inr (hs.issued scope (hs.query.asks_of_embeds he).1)

/-- Every fault in the text of a query tells something that it lacks. -/
theorem Sound.lacks_of_fault (hs : s.Sound fun _ => s.own)
    (h : ∃ f ∈ s.query.rendered.toList, .fault e ∈ f) : s.query.Lacks e := by
  rw [hs.query.mem_rendered rfl] at h
  obtain ⟨scope, hr, hb⟩ := h
  cases hb with
  | operand o ho hf =>
    obtain ⟨l, hl, hf⟩ := (Operand.mem_fragment rfl o).1 hf
    cases l with
    | node i => exact absurd hf (Draft.not_mem_nodeFragment rfl (hs.lt_size_of_leaf ho hl))
    | value v => simp [Leaf.fragment] at hf
    | parameter name =>
      cases hv : s.query.bindings.get? name with
      | none =>
        obtain rfl : e = .unboundParameter name := by
          simpa [Leaf.fragment, Operand.fragment, hv] using hf
        exact .binding hr ho hl hv
      | some v => simp [Leaf.fragment, Operand.fragment, hv] at hf
    | raw text vs =>
      obtain ⟨hm, rfl⟩ := fault_mem_rawFragment.1 hf
      exact .values hr ho hl hm
  | noRoots hroots heq =>
    cases heq
    rcases hs.roots_of_renders hr with rfl | hne
    · exact .root hroots
    · exact absurd hroots hne
  | untyped i _ hj hn heq =>
    cases heq
    exact .joinType hr (Draft.lacksJoinType_iff.2 ⟨hj, hn⟩)

/-- What a query lacks is a fault in its text, unless it is the capture of an access. -/
theorem Sound.fault_of_lacks (hs : s.Sound fun _ => s.own) (hp : s.query.pending.isEmpty = true)
    (h : s.query.Lacks e) : ∃ f ∈ s.query.rendered.toList, .fault e ∈ f := by
  rw [hs.query.mem_rendered rfl]
  cases h with
  | capture hpending => rw [hp] at hpending; cases hpending
  | root hroots => exact ⟨0, .refl, .noRoots hroots rfl⟩
  | joinType hr hl =>
    obtain ⟨hj, hn⟩ := Draft.lacksJoinType_iff.1 hl
    obtain ⟨n, p, hnode, hscope, -⟩ := hl
    refine ⟨_, hr, .untyped _ ?_ hj hn rfl⟩
    rcases hs.roots_of_renders hr with rfl | hne
    · exact hs.query.owned.roots_outermost_ne_nil (Graph.scope?_eq_some_iff.2 ⟨n, hnode, hscope⟩)
    · exact hne
  | binding hr ho hl hv =>
    refine ⟨_, hr, .operand _ ho ((Operand.mem_fragment rfl _).2 ⟨_, hl, ?_⟩)⟩
    simp [Leaf.fragment, Operand.fragment, hv]
  | values hr ho hl hm =>
    refine ⟨_, hr, .operand _ ho ((Operand.mem_fragment rfl _).2 ⟨_, hl, ?_⟩)⟩
    exact fault_mem_rawFragment.2 ⟨hm, rfl⟩

/-- **When a query compiles.** A query that was built with its own handles compiles exactly if it
is complete, and every error tells something that it lacks. -/
theorem ReachableBy.compiles_iff (h : s.ReachableBy own) :
    ((∃ c, s.query.compile = .ok c) ↔ s.query.Complete) ∧
      ∀ e, s.query.compile = .error e → s.query.Lacks e := by
  have hs := sound_of_own h
  rw [Query.complete_iff, Query.compile]
  split
  · next hp =>
    have hfault : ∀ e, (∃ f ∈ s.query.rendered.toList, .fault e ∈ f) ↔ s.query.Lacks e :=
      fun e => ⟨hs.lacks_of_fault, hs.fault_of_lacks hp⟩
    refine ⟨?_, fun e he => (hfault e).1 (Draft.fault_of_compile he)⟩
    rw [Draft.exists_compile_iff, Sections.Faultless]
    simp only [← hfault, Fragment.Faultless, not_exists, not_and]
    exact ⟨fun h e f hf => h f hf e, fun h f hf e => h e f hf⟩
  · next hp =>
    have hlacks : s.query.Lacks (.danglingAccess s.query.pendingPaths) :=
      .capture (Bool.eq_false_iff.2 hp)
    refine ⟨⟨fun h => ?_, fun h => absurd hlacks (h _)⟩, fun e he => ?_⟩
    · obtain ⟨c, hc⟩ := h
      cases hc
    · cases he
      exact hlacks

theorem sample_own : sample.ReachableBy own := by
  refine ⟨Sample.registry, .default, _, ?_, rfl⟩
  simp only [Given, Event.Within, Event.expressions, Event.subs, Call.expressions, Call.subs,
    Opening.expressions, Completion.expressions, Completion.subs, List.append_nil,
    List.not_mem_nil, false_implies, implies_true, true_and, and_true, List.mem_singleton,
    forall_eq]
  show 1 ∈ Stage.issued _
  decide +kernel

theorem sample_compiles : sample.ReachableBy own ∧ sample.query.Complete :=
  ⟨sample_own, (ReachableBy.compiles_iff sample_own).1.1 exists_compile_sample⟩

end Stage

end PathQuery
