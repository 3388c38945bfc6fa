import PathQuery.Proofs.Order
import PathQuery.Proofs.Reachable
import PathQuery.Schema.Sample

/-!
# Accesses are canonical

A child is looked up among the children that the current scope sees, and only if there is none is
one made. Several nodes may stand for one path all the same: what a sub-query has made stays behind
when it is closed, and the scope around it then makes a node of its own.

**The invariant** (`Query.Canonical`). The current scope sees at most one child of a node at a
segment. A new child is made only where none is seen. A scope that is opened has no node yet, so it
sees what the scope around it sees. A scope that is closed is never current again, and closing it
only takes nodes out of sight.

What a scope has seen it sees for ever, and so do the scopes that are opened inside it. So an access
that has succeeded gives the same node again in all of them, whatever has happened in between.

Main statement: `Reachable.canonicalAccess`.
-/

namespace PathQuery

/-! ## Children at a segment -/

namespace Graph

/-- Whether a node is a child of another one at a segment. -/
def HasChildAt (g : Graph) (owner : Nat) (segment : String) (i : Nat) : Prop :=
  ∃ n, g.node? i = some n ∧ n.parent = some owner ∧ n.segment = segment

/-- The root of a node and the segments from the node up to it. -/
def path (g : Graph) (i : Nat) : Option Nat × List String :=
  ((g.lineage i).getLast?, (g.lineage i).map g.segment)

variable {g g' : Graph} {owner i c : Nat} {segment : String} {visible : Nat → Bool}

theorem HasChildAt.lt_size (h : g.HasChildAt owner segment i) : i < g.size := by
  obtain ⟨n, hn, -⟩ := h
  exact lt_size_of_node? hn

theorem hasChildAt_of_findChild? (h : g.findChild? owner segment visible = some c) :
    g.HasChildAt owner segment c ∧ ∃ s, g.scope? c = some s ∧ visible s = true := by
  obtain ⟨⟨n, j⟩, hfound, rfl⟩ := Option.map_eq_some_iff.1 h
  have hmem := List.mem_zipIdx_iff_getElem?.1 (List.mem_of_find?_eq_some hfound)
  have hcond := List.find?_some hfound
  simp only [Bool.and_eq_true, beq_iff_eq] at hcond
  obtain ⟨⟨hparent, hsegment⟩, hvisible⟩ := hcond
  have hn : g.node? j = some n := hmem
  exact ⟨⟨n, hn, hparent, hsegment⟩, n.scope, scope?_eq_some_iff.2 ⟨n, hn, rfl⟩, hvisible⟩

theorem not_visible_of_findChild? (h : g.findChild? owner segment visible = none)
    (hi : g.HasChildAt owner segment i) {s : Nat} (hs : g.scope? i = some s) :
    visible s = false := by
  obtain ⟨n, hn, hparent, hsegment⟩ := hi
  have hmem : (n, i) ∈ g.nodes.zipIdx := List.mem_zipIdx_iff_getElem?.2 hn
  have hnone := List.find?_eq_none.1 (Option.map_eq_none_iff.1 h) (n, i) hmem
  obtain rfl : n.scope = s := by simpa [scope?, hn] using hs
  simpa [hparent, hsegment] using hnone

/-- A node stays the child that it was made as. -/
theorem Extends.hasChildAt_iff (h : g.Extends g') (hi : i < g.size) :
    g'.HasChildAt owner segment i ↔ g.HasChildAt owner segment i := by
  obtain ⟨n, hn⟩ := exists_node?_of_lt hi
  obtain ⟨j, hj, -⟩ := h.node hn
  simp [HasChildAt, hn, hj]

/-- A node is a child of its parent at its own segment. -/
theorem hasChildAt_of_parent? (h : g.parent? i = some owner) :
    g.HasChildAt owner (g.segment i) i := by
  obtain ⟨n, hn, hp⟩ := parent?_eq_some_iff.1 h
  exact ⟨n, hn, hp, by simp [Graph.segment, hn]⟩

theorem lineage_ne_nil (g : Graph) (i : Nat) : g.lineage i ≠ [] :=
  List.ne_nil_of_mem (g.ancestry.self_mem_chain i)

theorem path_ne_nil (g : Graph) (i : Nat) : (g.path i).2 ≠ [] := by
  simpa [path] using g.lineage_ne_nil i

theorem path_of_root (h : g.parent? i = none) : g.path i = (some i, [g.segment i]) := by
  rw [path, lineage_of_root h]
  rfl

/-- A path goes on from that of the parent. -/
theorem path_of_parent {p : Nat} (h : g.parent? i = some p) :
    g.path i = ((g.path p).1, g.segment i :: (g.path p).2) := by
  rw [path, lineage_of_parent h, List.getLast?_cons_of_ne_nil (g.lineage_ne_nil p)]
  rfl

end Graph

/-- A scope that is opened is inside the current one and those around it. -/
theorem Scopes.encloses_enter_size {t : Scopes} {r : Nat} :
    t.enter.encloses r t.size = true ↔ r = t.size ∨ t.encloses r t.current = true := by
  have houter : t.enter.outer? t.size = some t.current := by rw [outer?_enter, if_pos rfl]
  have hold := t.extends_enter.encloses_eq (a := r) t.current_lt
  rw [encloses_iff_outer]
  constructor
  · rintro (rfl | ⟨p, hp, henc⟩)
    · exact Or.inl rfl
    · cases houter.symm.trans hp
      exact Or.inr (hold.symm.trans henc)
  · rintro (rfl | henc)
    · exact Or.inl rfl
    · exact Or.inr ⟨t.current, houter, hold.trans henc⟩

/-! ## The invariant -/

namespace Query

/-- Whether the current scope sees a node: it has made the node, or a scope around it has. -/
def Sees (q : Query) (i : Nat) : Prop :=
  ∃ r, q.graph.scope? i = some r ∧ q.scopes.encloses r q.current = true

/-- Whether the current scope sees at most one child of a node at a segment. -/
structure Canonical (q : Query) : Prop where
  unique : ∀ {owner segment i j}, q.graph.HasChildAt owner segment i →
    q.graph.HasChildAt owner segment j → q.Sees i → q.Sees j → i = j

variable {h : Handles} {q q' : Query} {i : Nat}

theorem Sees.lt_size (hi : q.Sees i) : i < q.graph.size := by
  obtain ⟨r, hr, -⟩ := hi
  exact Graph.lt_size_of_scope? hr

theorem checkVisible_eq_ok_iff : q.checkVisible i none = .ok () ↔ q.Sees i := by
  constructor
  · exact sees_of_checkVisible (h := .any)
  · rintro ⟨r, hr, henc⟩
    have hvis : q.scopes.isVisible q.graph i none = true := by
      rw [Scopes.isVisible, hr]
      exact (Bool.and_true _).trans henc
    rw [checkVisible, if_pos hvis]

/-- What a scope sees it sees for ever, and so do the scopes inside it. -/
theorem Sees.later (hi : q.Sees i) (hext : q.Extends q')
    (hin : q'.scopes.encloses q.current q'.current = true) : q'.Sees i := by
  obtain ⟨r, hr, henc⟩ := hi
  exact ⟨r, hext.graph.scope? hr, Scopes.encloses_trans (hext.scopes.encloses henc) hin⟩

/-- A scope that goes on sees no node that it did not see, new ones apart. -/
theorem Sees.earlier (hi : q'.Sees i) (hext : q.Extends q') (hcur : q'.current = q.current)
    (hlt : i < q.graph.size) : q.Sees i := by
  obtain ⟨r, hr, henc⟩ := hi
  rw [hext.graph.scope?_eq hlt] at hr
  rw [hcur, hext.scopes.encloses_eq (i := q.current) q.scopes.current_lt] at henc
  exact ⟨r, hr, henc⟩

/-- A query that sees no other children stays canonical. -/
theorem Canonical.of_old (hq : q.Canonical) (hext : q.Extends q')
    (hold : ∀ {owner segment i}, q'.graph.HasChildAt owner segment i → q'.Sees i →
      i < q.graph.size ∧ q.Sees i) : q'.Canonical := by
  refine ⟨fun {owner segment i j} hi hj his hjs => ?_⟩
  obtain ⟨hilt, his⟩ := hold hi his
  obtain ⟨hjlt, hjs⟩ := hold hj hjs
  exact hq.unique ((hext.graph.hasChildAt_iff hilt).1 hi)
    ((hext.graph.hasChildAt_iff hjlt).1 hj) his hjs

/-- A child is made only where none is seen. -/
theorem Canonical.withChild {owner : Nat} {property : String} {spec : ChildSpec}
    (hq : q.Canonical) (happ : q.graph.AppendsTo (q.withChild owner property spec).graph
      ⟨some owner, property, spec.target, spec.kind, none, spec.identifier,
        Graph.reserved q.aliases spec.kind, q.current⟩)
    (hext : q.Extends (q.withChild owner property spec))
    (hcur : (q.withChild owner property spec).current = q.current)
    (new : q.graph.findChild? owner property (q.scopes.encloses · q.current) = none) :
    (q.withChild owner property spec).Canonical := by
  -- A child that was there and is seen is not where the new one is.
  have hother : ∀ {owner' segment i}, i < q.graph.size →
      (q.withChild owner property spec).graph.HasChildAt owner' segment i →
      (q.withChild owner property spec).Sees i →
      ¬ (q.withChild owner property spec).graph.HasChildAt owner' segment q.graph.size := by
    rintro owner' segment i hlt hi his ⟨n, hn, hp, hs⟩
    rw [happ.node?_size] at hn
    cases hn
    cases hp
    obtain ⟨r, hr, henc⟩ := his.earlier hext hcur hlt
    have hi := (hext.graph.hasChildAt_iff hlt).1 (hs ▸ hi)
    rw [Graph.not_visible_of_findChild? new hi hr] at henc
    cases henc
  have hnode : ∀ {owner' segment i},
      (q.withChild owner property spec).graph.HasChildAt owner' segment i →
      i = q.graph.size ∨ i < q.graph.size := by
    rintro owner' segment i ⟨n, hn, -⟩
    exact (happ.cases hn).imp And.left And.left
  refine ⟨fun {owner' segment i j} hi hj his hjs => ?_⟩
  rcases hnode hi with rfl | hilt <;> rcases hnode hj with rfl | hjlt
  · rfl
  · exact absurd hi (hother hjlt hj hjs)
  · exact absurd hj (hother hilt hi his)
  · exact hq.unique ((hext.graph.hasChildAt_iff hilt).1 hi) ((hext.graph.hasChildAt_iff hjlt).1 hj)
      (his.earlier hext hcur hilt) (hjs.earlier hext hcur hjlt)

/-- Each change keeps accesses canonical. -/
theorem Change.canonical (hc : Change h q q') (hq : q.Canonical) : q'.Canonical := by
  have hext := hc.extends
  have hcur := hc.current_eq
  have hsame : (∀ {owner segment i}, q'.graph.HasChildAt owner segment i → i < q.graph.size) →
      q'.Canonical := fun hold => hq.of_old hext fun hi his =>
    ⟨hold hi, his.earlier hext hcur (hold hi)⟩
  cases hc with
  | pending | bind => exact ⟨hq.unique⟩
  | root type known =>
    refine hsame ?_
    rintro owner segment i ⟨n, hn, hp, -⟩
    rcases (Graph.appendsTo_addRoot q.graph type q.aliases.next q.current).cases hn with
      ⟨-, rfl⟩ | ⟨hlt, -⟩
    · cases hp
    · exact hlt
  | child owner property r seen kind new resolved =>
    exact hq.withChild (appendsTo_withChild seen property _) hext hcur new
  | join node type =>
    refine hsame fun hi => ?_
    rw [← q.graph.size_setJoin node type]
    exact hi.lt_size
  | add a fits =>
    rcases q.add_eq a with heq | ⟨_, _, _, -, -, heq⟩
    · rw [heq]; exact ⟨hq.unique⟩
    · rw [heq]; exact ⟨hq.unique⟩

/-- A scope that is opened sees what the scope around it sees. -/
theorem Canonical.enterSub (hq : q.Canonical) (ho : Owned q.graph q.scopes) :
    q.enterSub.Canonical := by
  have hext : q.Extends q.enterSub := ⟨.refl _, q.scopes.extends_enter, rfl⟩
  refine hq.of_old hext ?_
  rintro owner segment i hi ⟨r, hr, henc⟩
  refine ⟨hi.lt_size, r, hr, ?_⟩
  rcases Scopes.encloses_enter_size.1 henc with rfl | henc
  · exact absurd (ho.scope_lt hr) (Nat.lt_irrefl _)
  · exact henc

/-- Closing a scope takes nodes out of sight. -/
theorem Canonical.leaveSub {outer : Nat} (hq : q.Canonical)
    (ho : q.scopes.outer? q.current = some outer) : (q.leaveSub q.current).Canonical := by
  have hext : q.Extends (q.leaveSub q.current) := ⟨.refl _, q.scopes.extends_leave _, rfl⟩
  refine hq.of_old hext ?_
  rintro owner segment i hi ⟨r, hr, henc⟩
  refine ⟨hi.lt_size, r, hr, ?_⟩
  have hcur : (q.leaveSub q.current).current = outer := Scopes.current_leave ho
  have houter : outer < q.scopes.size := Nat.lt_trans (Scopes.outer?_lt ho) q.scopes.current_lt
  rw [hcur, hext.scopes.encloses_eq houter] at henc
  exact Scopes.encloses_iff_outer.2 (Or.inr ⟨outer, ho, henc⟩)

end Query

namespace Stage

variable {h : Nat → Handles} {s : Stage}

theorem Sound.canonical_step (hs : s.Sound h) {e : Event} (he : e.Within (h s.query.current))
    (hq : s.query.Canonical) : (s.step e).query.Canonical :=
  hs.step_relates (R := fun q q' => q.Canonical → q'.Canonical) he (fun _ => id)
    (fun h₁ h₂ hq => h₂ (h₁ hq)) (fun _ hc => hc.canonical) (fun _ hq => ⟨hq.unique⟩)
    (fun _ hq => hq.enterSub hs.query.owned) (fun _ _ ho hq => ⟨(hq.leaveSub ho).unique⟩) hq

theorem Reachable.canonical (h : s.Reachable) : s.query.Canonical := by
  have hboth : (s.Sound fun _ => .any) ∧ s.query.Canonical := by
    refine ReachableBy.induction h (motive := fun s => (s.Sound fun _ => .any) ∧ s.query.Canonical)
      ?_ ?_
    · intro schema settings
      refine ⟨sound_start _ schema settings, ⟨?_⟩⟩
      rintro owner segment i j ⟨n, hn, -⟩
      cases hn
    · rintro s e he ⟨hs, hq⟩
      exact ⟨(hs.step he).sound, hs.canonical_step he hq⟩
  exact hboth.2

end Stage

/-! ## Paths -/

namespace Query

variable {h : Nat → Handles} {q : Query} {i j : Nat}

/-- The scope of a node sees what is above the node. -/
theorem Sound.sees_parent (hq : q.Sound h) (hi : q.Sees i) {p : Nat}
    (hp : q.graph.parent? i = some p) : q.Sees p := by
  obtain ⟨s, hs, henc⟩ := hi
  obtain ⟨r, hr⟩ := Owned.scope?_parent hp
  exact ⟨r, hr, Scopes.encloses_trans (hq.owned.nested hp hs hr) henc⟩

/-- The current scope sees at most one node on a path. -/
theorem Sound.eq_of_path (hq : q.Sound h) (hc : q.Canonical) (hi : q.Sees i) (hj : q.Sees j)
    (hpath : q.graph.path i = q.graph.path j) : i = j := by
  induction i using Nat.strongRecOn generalizing j with
  | ind i ih =>
    cases hpi : q.graph.parent? i with
    | none =>
      rw [Graph.path_of_root hpi] at hpath
      cases hpj : q.graph.parent? j with
      | none =>
        rw [Graph.path_of_root hpj] at hpath
        exact Option.some.inj (congrArg Prod.fst hpath)
      | some p =>
        rw [Graph.path_of_parent hpj] at hpath
        have htail := congrArg (·.2.tail) hpath
        exact absurd htail.symm (q.graph.path_ne_nil p)
    | some p =>
      rw [Graph.path_of_parent hpi] at hpath
      cases hpj : q.graph.parent? j with
      | none =>
        rw [Graph.path_of_root hpj] at hpath
        have htail := congrArg (·.2.tail) hpath
        exact absurd htail (q.graph.path_ne_nil p)
      | some p' =>
        rw [Graph.path_of_parent hpj, Prod.mk.injEq, List.cons.injEq] at hpath
        obtain ⟨hroot, hsegment, habove⟩ := hpath
        have hp : p = p' := ih p (Graph.parent?_lt hpi) (hq.sees_parent hi hpi)
          (hq.sees_parent hj hpj) (Prod.ext hroot habove)
        have hat := Graph.hasChildAt_of_parent? hpi
        rw [hp, hsegment] at hat
        exact hc.unique hat (Graph.hasChildAt_of_parent? hpj) hi hj

end Query

/-! ## Accesses -/

theorem Build.bind_eq_ok_iff {α β : Type} {x : Build α} {f : α → Build β} {q q' : Query} {b : β} :
    (x >>= f) q = (.ok b, q') ↔ ∃ a q₁, x q = (.ok a, q₁) ∧ f a q₁ = (.ok b, q') := by
  cases hx : x q with
  | mk r q₁ =>
    cases r with
    | ok a => rw [bind_of_ok hx]; simp
    | error e => rw [bind_of_error hx]; simp

theorem Build.bind_eq_error_iff {α β : Type} {x : Build α} {f : α → Build β} {q q' : Query}
    {e : Error} : (x >>= f) q = (.error e, q') ↔
      x q = (.error e, q') ∨ ∃ a q₁, x q = (.ok a, q₁) ∧ f a q₁ = (.error e, q') := by
  cases hx : x q with
  | mk r q₁ =>
    cases r with
    | ok a => rw [bind_of_ok hx]; simp
    | error e => rw [bind_of_error hx]; simp

theorem Build.ask_eq_ok_iff {α : Type} {f : Query → Except Error α} {q q' : Query} {a : α} :
    ask f q = (.ok a, q') ↔ f q = .ok a ∧ q' = q := by
  rw [ask, Prod.mk.injEq, eq_comm (a := q)]

namespace Query

open Build

variable {h : Nat → Handles} {q q' : Query} {owner p : Placeholder} {property : String}

/-- What is true of a node that was accessed as a property of another one. -/
structure HasAccessed (q : Query) (owner : Placeholder) (property : String) (p : Placeholder) :
    Prop where
  owned : q.graph.kind? owner.node = some owner.kind
  through : owner.kind ≠ .property
  reached : q.Sees owner.node
  child : q.graph.HasChildAt owner.node property p.node
  typed : q.graph.kind? p.node = some p.kind
  seen : q.Sees p.node

/-- What was accessed once stays so for the scope and for those that are opened inside it. -/
theorem HasAccessed.later (ha : q.HasAccessed owner property p) (hext : q.Extends q')
    (hin : q'.scopes.encloses q.current q'.current = true) :
    q'.HasAccessed owner property p where
  owned := (hext.graph.kind?_eq ha.reached.lt_size).trans ha.owned
  through := ha.through
  reached := ha.reached.later hext hin
  child := (hext.graph.hasChildAt_iff ha.seen.lt_size).2 ha.child
  typed := (hext.graph.kind?_eq ha.seen.lt_size).trans ha.typed
  seen := ha.seen.later hext hin

/-- The child that is found or made is a child at the segment, and the current scope sees it. -/
theorem child_eq_ok {i c : Nat} (hi : q.Sees i) (hk : q.graph.kind? i ≠ some .property)
    (hok : child i property q = (.ok c, q')) : q.Extends q' ∧ q'.current = q.current ∧
      q'.graph.HasChildAt i property c ∧ q'.Sees c := by
  unfold child at hok
  split at hok
  · next hfound =>
    cases hok
    obtain ⟨hchild, s, hs, henc⟩ := Graph.hasChildAt_of_findChild? hfound
    exact ⟨.refl q, rfl, hchild, s, hs, henc⟩
  · next hnone =>
    split at hok
    · next r hr =>
      cases hok
      have hc : Change .any q (q.withChild i property (childSpec q.schema r)) :=
        .child i property r hi hk hnone hr
      have hnode := (appendsTo_withChild (h := .any) hi property (childSpec q.schema r)).node?_size
      refine ⟨hc.extends, hc.current_eq, ⟨_, hnode, rfl, rfl⟩, q.current, ?_, ?_⟩
      · exact Graph.scope?_eq_some_iff.2 ⟨_, hnode, rfl⟩
      · rw [hc.current_eq]
        exact Scopes.encloses_self _ _
    · cases hok

/-- An access succeeds exactly if its checks do and there is a child, which is then left pending. -/
theorem access_eq_ok_iff : access owner property q = (.ok p, q') ↔
    q.checkPlaceholder owner = .ok owner.node ∧ q.checkOwner owner.node = .ok () ∧
      ∃ q₁, child owner.node property q = (.ok p.node, q₁) ∧
        p.kind = (q₁.graph.kind? p.node).getD .property ∧
        q' = { q₁ with pending := q₁.pending.record owner.node p.node } := by
  rw [access]
  constructor
  · intro hok
    obtain ⟨node, q₀, hnode, hrest⟩ := bind_eq_ok_iff.1 hok
    obtain ⟨u, q₁, howner, hrest'⟩ := bind_eq_ok_iff.1 hrest
    obtain ⟨c, q₂, hchild, hrecord⟩ := bind_eq_ok_iff.1 hrest'
    obtain ⟨v, q₃, hchange, hresult⟩ := bind_eq_ok_iff.1 hrecord
    obtain ⟨hnode, rfl⟩ := ask_eq_ok_iff.1 hnode
    obtain ⟨howner, rfl⟩ := ask_eq_ok_iff.1 howner
    obtain ⟨hp, rfl⟩ := ask_eq_ok_iff.1 hresult
    obtain rfl := eq_of_checkPlaceholder hnode
    cases hchange
    cases hp
    exact ⟨hnode, howner, q₂, hchild, rfl, rfl⟩
  · rintro ⟨hnode, howner, q₁, hchild, hkind, rfl⟩
    refine bind_eq_ok_iff.2 ⟨_, q, ask_eq_ok_iff.2 ⟨hnode, rfl⟩, ?_⟩
    refine bind_eq_ok_iff.2 ⟨_, q, ask_eq_ok_iff.2 ⟨howner, rfl⟩, ?_⟩
    refine bind_eq_ok_iff.2 ⟨_, q₁, hchild, ?_⟩
    refine bind_eq_ok_iff.2 ⟨_, _, rfl, ?_⟩
    refine ask_eq_ok_iff.2 ⟨?_, rfl⟩
    exact congrArg (fun kind => Except.ok (Placeholder.mk p.node kind)) hkind.symm

/-- An access that fails changes nothing. -/
theorem access_eq_error {q' : Query} {e : Error}
    (hr : access owner property q = (.error e, q')) : q' = q := by
  rw [access] at hr
  rcases bind_eq_error_iff.1 hr with hnode | ⟨node, q₁, hnode, hrest⟩
  · exact (congrArg Prod.snd hnode).symm
  obtain ⟨-, rfl⟩ := ask_eq_ok_iff.1 hnode
  rcases bind_eq_error_iff.1 hrest with howner | ⟨u, q₂, howner, hrest'⟩
  · exact (congrArg Prod.snd howner).symm
  obtain ⟨-, rfl⟩ := ask_eq_ok_iff.1 howner
  rcases bind_eq_error_iff.1 hrest' with hchild | ⟨c, q₃, -, hrecord⟩
  · unfold child at hchild
    split at hchild
    · cases hchild
    · split at hchild
      · cases hchild
      · exact (congrArg Prod.snd hchild).symm
  · rcases bind_eq_error_iff.1 hrecord with hchange | ⟨v, q₄, -, hkind⟩
    · cases hchange
    · cases hkind

theorem checkPlaceholder_eq_ok_iff :
    q.checkPlaceholder p = .ok p.node ↔ q.graph.kind? p.node = some p.kind := by
  rw [checkPlaceholder]
  split <;> simp_all

theorem checkOwner_eq_ok_iff {i : Nat} :
    q.checkOwner i = .ok () ↔ q.graph.kind? i ≠ some .property ∧ q.Sees i := by
  rw [checkOwner]
  split
  · next hk => simp [hk]
  · next hk => simp [hk, checkVisible_eq_ok_iff]

theorem hasAccessed_of_access (hok : access owner property q = (.ok p, q')) :
    q'.current = q.current ∧ q'.HasAccessed owner property p := by
  obtain ⟨hnode, howner, q₁, hchild, hkind, rfl⟩ := access_eq_ok_iff.1 hok
  have hnode := checkPlaceholder_eq_ok_iff.1 hnode
  obtain ⟨hk, hi⟩ := checkOwner_eq_ok_iff.1 howner
  obtain ⟨hext, hcur, hat, hc⟩ := child_eq_ok hi hk hchild
  have hreached : q₁.Sees owner.node := hi.later hext (hcur ▸ Scopes.encloses_self _ _)
  have htyped : q₁.graph.kind? p.node = some p.kind := by
    obtain ⟨n, hn, -⟩ := hat
    rw [hkind, Graph.kind?, hn]
    rfl
  exact ⟨hcur, (hext.graph.kind?_eq hi.lt_size).trans hnode,
    fun h => hk (hnode.trans (congrArg some h)), hreached, hat, htyped, hc⟩

/-- What was accessed is found again, and only the pending accesses are changed. -/
theorem HasAccessed.access_eq (ha : q.HasAccessed owner property p) (hq : q.Canonical) :
    access owner property q =
      (.ok p, { q with pending := q.pending.record owner.node p.node }) := by
  have hthrough : q.graph.kind? owner.node ≠ some .property := by
    rw [ha.owned]
    exact fun h => ha.through (Option.some.inj h)
  have hchild : Query.child owner.node property q = (.ok p.node, q) := by
    rw [Query.child]
    split
    · next c hc =>
      obtain ⟨hat, r, hr, henc⟩ := Graph.hasChildAt_of_findChild? hc
      rw [hq.unique hat ha.child ⟨r, hr, henc⟩ ha.seen]
    · next hnone =>
      obtain ⟨r, hr, henc⟩ := ha.seen
      rw [Graph.not_visible_of_findChild? hnone ha.child hr] at henc
      cases henc
  refine access_eq_ok_iff.2 ⟨checkPlaceholder_eq_ok_iff.2 ha.owned,
    checkOwner_eq_ok_iff.2 ⟨hthrough, ha.reached⟩, q, hchild, ?_, rfl⟩
  rw [ha.typed]
  rfl

end Query

/-! ## Runs -/

namespace Stage

variable {s : Stage}

/-- What is canonical about the accesses at a stage. -/
structure CanonicalAccess (s : Stage) : Prop where
  /-- The current scope sees at most one child of a node at a segment. -/
  child : ∀ {owner segment i j}, s.query.graph.HasChildAt owner segment i →
    s.query.graph.HasChildAt owner segment j → s.query.Sees i → s.query.Sees j → i = j
  /-- It sees at most one node on a path. -/
  path : ∀ {i j}, s.query.Sees i → s.query.Sees j →
    s.query.graph.path i = s.query.graph.path j → i = j
  /-- An access that succeeds gives the same node again, whatever happens in between, as long as
  the scope is the same or one inside it. No node is made and no alias is issued the second time:
  only the pending accesses are changed. -/
  again : ∀ {owner property p}, (Query.access owner property s.query).1 = .ok p → ∀ es,
    let later := (s.run (.call (.access owner property) :: es)).query
    later.scopes.encloses s.query.current later.current = true →
      Query.access owner property later =
        (.ok p, { later with pending := later.pending.record owner.node p.node })

/-- **Accesses are canonical.** -/
theorem Reachable.canonicalAccess (h : s.Reachable) : s.CanonicalAccess where
  child := h.canonical.unique
  path := h.sound.query.eq_of_path h.canonical
  again := by
    intro owner property p hok es later hin
    have hstep : (s.step (.call (.access owner property))).query =
        (Query.access owner property s.query).2 := by
      have hpair : Query.access owner property s.query =
        (.ok p, (Query.access owner property s.query).2) := Prod.ext hok rfl
      exact congrArg Prod.snd (Build.bind_of_ok hpair)
    obtain ⟨hcur, hfirst⟩ := Query.hasAccessed_of_access (Prod.ext hok rfl)
    have hext := ((h.run [.call (.access owner property)]).sound.run es).kept.query
    rw [run_cons, run_nil, hstep] at hext
    have hcanonical : later.Canonical := (h.run (.call (.access owner property) :: es)).canonical
    refine (hfirst.later hext ?_).access_eq hcanonical
    rw [hcur]
    exact hin

/-- A query of which a sub-query has reached the town before the query itself. -/
def sampleTowns : Stage :=
  (start Sample.registry .default).run
    [.call (.addFrom "Person"), .enterSub, .call (.addFrom "Car"),
      .call (.access ⟨0, .root⟩ "town"), .call .drain, .leaveSub true]

/-- The query makes a town of its own, and another sub-query finds that one. -/
theorem sampleTowns_canonicalAccess : sampleTowns.Reachable ∧ sampleTowns.CanonicalAccess ∧
    sampleTowns.query.graph.HasChildAt 0 "town" 2 ∧
    (Query.access ⟨0, .root⟩ "town" sampleTowns.query).1 = .ok ⟨3, .entity⟩ ∧
    (Query.access ⟨0, .root⟩ "town" (sampleTowns.run [.call (.access ⟨0, .root⟩ "town"),
      .call .drain, .enterSub, .call (.addFrom "Car")]).query).1 = .ok ⟨3, .entity⟩ := by
  have hreach : sampleTowns.Reachable := reachable_start _ _ _
  have hfirst : (Query.access ⟨0, .root⟩ "town" sampleTowns.query).1 = .ok ⟨3, .entity⟩ := by
    decide +kernel
  have hcanonical := Reachable.canonicalAccess hreach
  have hagain := hcanonical.again hfirst [.call .drain, .enterSub, .call (.addFrom "Car")]
    (by decide +kernel)
  exact ⟨hreach, hcanonical, ⟨_, rfl, rfl, rfl⟩, hfirst, congrArg Prod.fst hagain⟩

end Stage

end PathQuery
