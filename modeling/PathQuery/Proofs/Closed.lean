import PathQuery.Proofs.Canonical
import PathQuery.Proofs.Isolation

/-!
# Closed sub-queries

A scope is *closed* when it was opened and the current scope is not inside it. An event closes only
the current scope and opens only a new one inside it, so a closed scope is never current again, and
nothing is opened inside it any more.

**Frozen.** Whatever is added goes to the current scope: nodes, `from` entries, attached nodes and
clauses. Children are made only under nodes that the current scope sees, and join types are set only
on nodes that it owns. So a closed scope, the scopes inside it and their nodes stay as they are
(`Query.KeepsScope`).

**Dead handles.** The current scope does not see the nodes of a closed scope. Every operation on a
node asks whether the scope sees it, or whether the scope owns it, before it adds anything
(`Query.Refuses`).

Main statement: `Reachable.staysClosed`.
-/

namespace PathQuery

/-! ## Scopes inside a scope -/

namespace Scopes

variable {t t' : Scopes} {k i : Nat}

/-- There is nothing around a scope that was not opened yet. -/
theorem encloses_of_size_le (hk : k < t.size) (hi : t.size ≤ i) : t.encloses k i = false := by
  rw [Bool.eq_false_iff, ne_eq, encloses_iff_outer, not_or]
  refine ⟨Nat.ne_of_lt (Nat.lt_of_lt_of_le hk hi), ?_⟩
  rintro ⟨p, hp, -⟩
  rw [outer?, scope?, List.getElem?_eq_none hi] at hp
  cases hp

/-- What is inside a scope does not change when no scope is opened. -/
theorem Extends.encloses_eq_of_size (h : t.Extends t') (hsize : t'.size = t.size)
    (hk : k < t.size) (i : Nat) : t'.encloses k i = t.encloses k i := by
  by_cases hi : i < t.size
  · exact h.encloses_eq hi
  · have hi := Nat.le_of_not_lt hi
    rw [encloses_of_size_le hk hi, encloses_of_size_le (hsize ▸ hk) (hsize ▸ hi)]

/-- A scope that is opened is not inside one that the current scope is not inside. -/
theorem encloses_enter (hk : k < t.size) (hleft : t.encloses k t.current = false) (i : Nat) :
    t.enter.encloses k i = t.encloses k i := by
  have hext := t.extends_enter
  rcases Nat.lt_trichotomy i t.size with hi | rfl | hi
  · exact hext.encloses_eq hi
  · rw [encloses_of_size_le hk (Nat.le_refl _), Bool.eq_false_iff, ne_eq, encloses_enter_size,
      hleft]
    rintro (rfl | henc)
    · exact Nat.lt_irrefl _ hk
    · cases henc
  · have hk' : k < t.enter.size := Nat.lt_of_lt_of_le hk hext.size_le
    rw [encloses_of_size_le hk (Nat.le_of_lt hi),
      encloses_of_size_le hk' (by rw [size_enter]; exact hi)]

theorem scope?_addRoot_of_ne (t : Scopes) (node : Nat) (hi : i ≠ t.current) :
    (t.addRoot node).scope? i = t.scope? i := by
  simp [addRoot, scope?_modifyCurrent, Ne.symm hi]

theorem scope?_attach_of_ne (t : Scopes) (node : Nat) (hi : i ≠ t.current) :
    (t.attach node).scope? i = t.scope? i := by
  simp [attach, scope?_modifyCurrent, Ne.symm hi]

end Scopes

/-! ## Children -/

namespace Graph

variable {g g' : Graph} {n : Node} {i : Nat}

/-- An entity with the same children is a foreign key or not as before. -/
theorem Extends.isForeignKey_eq (h : g.Extends g') (hc : g'.children i = g.children i) (n : Node) :
    g'.isForeignKey i n = g.isForeignKey i n := by
  rw [Graph.isForeignKey_eq, Graph.isForeignKey_eq, hc]
  rcases hi : g.children i with _ | ⟨c, _ | ⟨d, rest⟩⟩
  · rfl
  · have hmem : c ∈ g.children i := hi ▸ List.mem_cons_self
    obtain ⟨m, hm⟩ := exists_node?_of_lt (lt_size_of_parent? (mem_children.1 hmem))
    obtain ⟨j, hj, -⟩ := h.node hm
    simp [isIdentifierOf, hm, hj]
  · rfl

end Graph

/-! ## What is kept of a closed scope -/

namespace Query

/-- Whether a scope was opened and the current one is not inside it. -/
structure IsClosed (q : Query) (k : Nat) : Prop where
  opened : k < q.scopes.size
  left : q.scopes.encloses k q.current = false

/-- Whether a query has a scope, and those inside it, as another query has them. -/
structure KeepsScope (q : Query) (k : Nat) (q' : Query) : Prop where
  /-- No scope is opened inside it. -/
  inside : ∀ s, q'.scopes.encloses k s = q.scopes.encloses k s
  /-- The `from` entries and the attached nodes are the same. -/
  scopes : ∀ s, q.scopes.encloses k s = true → q'.scopes.scope? s = q.scopes.scope? s
  clauses : ∀ s, q.scopes.encloses k s = true → q'.clauses[s]? = q.clauses[s]?
  /-- The nodes are the same, each with its join type and its alias, and there are no others. -/
  nodes : ∀ i n, q.scopes.encloses k n.scope = true →
    (q'.graph.node? i = some n ↔ q.graph.node? i = some n)
  children : ∀ i s, q.graph.scope? i = some s → q.scopes.encloses k s = true →
    q'.graph.children i = q.graph.children i

variable {h : Handles} {q q' q'' : Query} {k i s : Nat}

namespace KeepsScope

theorem refl (k : Nat) (q : Query) : q.KeepsScope k q :=
  ⟨fun _ => rfl, fun _ _ => rfl, fun _ _ => rfl, fun _ _ _ => Iff.rfl, fun _ _ _ _ => rfl⟩

/-- A node inside goes on belonging to its scope. -/
theorem scope? (h : q.KeepsScope k q') (hi : q.graph.scope? i = some s)
    (hs : q.scopes.encloses k s = true) : q'.graph.scope? i = some s := by
  obtain ⟨n, hn, rfl⟩ := Graph.scope?_eq_some_iff.1 hi
  exact Graph.scope?_eq_some_iff.2 ⟨n, (h.nodes i n hs).2 hn, rfl⟩

theorem trans (h : q.KeepsScope k q') (h' : q'.KeepsScope k q'') : q.KeepsScope k q'' where
  inside s := (h'.inside s).trans (h.inside s)
  scopes s hs := (h'.scopes s ((h.inside s).trans hs)).trans (h.scopes s hs)
  clauses s hs := (h'.clauses s ((h.inside s).trans hs)).trans (h.clauses s hs)
  nodes i n hn := (h'.nodes i n ((h.inside _).trans hn)).trans (h.nodes i n hn)
  children i s hi hs := (h'.children i s (h.scope? hi hs) ((h.inside s).trans hs)).trans
    (h.children i s hi hs)

/-- A node inside goes on being joined as it is. -/
theorem joinType_eq (h : q.KeepsScope k q') (hext : q.Extends q')
    (hi : q.graph.scope? i = some s) (hs : q.scopes.encloses k s = true) :
    q'.graph.joinType i = q.graph.joinType i := by
  obtain ⟨n, hn, rfl⟩ := Graph.scope?_eq_some_iff.1 hi
  have hkey := hext.graph.isForeignKey_eq (h.children i n.scope hi hs) n
  rw [Graph.joinType, Graph.joinType, (h.nodes i n hs).2 hn, hn]
  dsimp only
  rw [hkey]

/-- It goes on being written by the alias it has. -/
theorem alias?_eq (h : q.KeepsScope k q') (hext : q.Extends q')
    (hi : q.graph.scope? i = some s) (hs : q.scopes.encloses k s = true) :
    q'.graph.alias? i = q.graph.alias? i := by
  obtain ⟨n, hn, rfl⟩ := Graph.scope?_eq_some_iff.1 hi
  have howns : q'.graph.ownsAlias i = q.graph.ownsAlias i := by
    rw [Graph.ownsAlias, Graph.ownsAlias, hext.graph.kind?_eq (Graph.lt_size_of_node? hn),
      h.joinType_eq hext hi hs]
  rw [Graph.alias?, Graph.alias?, howns, (h.nodes i n hs).2 hn, hn]

end KeepsScope

/-- The current scope is not inside a closed one. -/
theorem IsClosed.ne_current (hk : q.IsClosed k) (hs : q.scopes.encloses k s = true) :
    s ≠ q.current := by
  rintro rfl
  rw [hk.left] at hs
  cases hs

/-- The current scope sees no node of a closed one. -/
theorem IsClosed.not_encloses (hk : q.IsClosed k) (hs : q.scopes.encloses k s = true) :
    q.scopes.encloses s q.current = false := by
  rw [Bool.eq_false_iff]
  intro henc
  have hinside := Scopes.encloses_trans hs henc
  rw [hk.left] at hinside
  cases hinside

/-! ## What a change touches -/

/-- Whether a query differs from another one only in the current scope and in children of nodes that
the current scope sees. -/
structure DiffersHere (q q' : Query) : Prop where
  size : q'.scopes.size = q.scopes.size
  scopes : ∀ s, s ≠ q.current → q'.scopes.scope? s = q.scopes.scope? s
  clauses : ∀ s, s ≠ q.current → q'.clauses[s]? = q.clauses[s]?
  nodes : ∀ p : Nat → Prop, ¬ p q.current → q.graph.SameIn p q'.graph
  children : ∀ i s, q.graph.scope? i = some s → q.scopes.encloses s q.current = false →
    q'.graph.children i = q.graph.children i

theorem Change.differsHere (hc : Change h q q') : q.DiffersHere q' := by
  cases hc with
  | pending | bind =>
    exact ⟨rfl, fun _ _ => rfl, fun _ _ => rfl, fun _ _ _ _ _ => Iff.rfl, fun _ _ _ _ => rfl⟩
  | root type known =>
    have happ := Graph.appendsTo_addRoot q.graph type q.aliases.next q.current
    exact ⟨by simp [Scopes.addRoot], fun _ => q.scopes.scope?_addRoot_of_ne _,
      fun _ _ => rfl, fun _ hp => happ.sameIn hp, fun i _ _ _ => happ.children_eq nofun⟩
  | child owner property r seen kind new resolved =>
    have happ := appendsTo_withChild seen property (childSpec q.schema r)
    refine ⟨?_, ?_, fun _ _ => rfl, fun _ hp => happ.sameIn hp, ?_⟩
    · rw [withChild]
      dsimp only
      split
      · rfl
      · simp [Scopes.attach]
    · intro s hs
      rw [withChild]
      dsimp only
      split
      · rfl
      · exact q.scopes.scope?_attach_of_ne _ hs
    · -- The parent of the new node is seen.
      intro i s hi hs
      refine happ.children_eq ?_
      rintro ⟨⟩
      obtain ⟨r, hr, henc⟩ := seen
      cases hi.symm.trans hr
      exact Bool.false_ne_true (hs.symm.trans henc)
  | join node type own root property =>
    exact ⟨rfl, fun _ _ => rfl, fun _ _ => rfl, fun _ hp => Graph.sameIn_setJoin own hp type,
      fun i _ _ _ => Graph.children_setJoin q.graph node type i⟩
  | add a fits =>
    rcases q.add_eq a with heq | ⟨_, _, _, -, -, heq⟩
    · rw [heq]
      refine ⟨rfl, fun _ _ => rfl, ?_, fun _ _ _ _ _ => Iff.rfl, fun _ _ _ _ => rfl⟩
      intro s hs
      simp [clauses_modifyClauses, Ne.symm hs]
    · rw [heq]
      exact ⟨rfl, fun _ _ => rfl, fun _ _ => rfl, fun _ _ _ _ _ => Iff.rfl, fun _ _ _ _ => rfl⟩

/-- Each change keeps a closed scope closed and as it is. -/
theorem Change.keepsScope (hc : Change h q q') (hk : q.IsClosed k) :
    q'.IsClosed k ∧ q.KeepsScope k q' := by
  have hd := hc.differsHere
  have hinside := hc.extends.scopes.encloses_eq_of_size hd.size hk.opened
  have hclosed : q'.IsClosed k :=
    ⟨hd.size ▸ hk.opened, by rw [hc.current_eq, hinside]; exact hk.left⟩
  refine ⟨hclosed, hinside, ?_, ?_, ?_, ?_⟩
  · exact fun s hs => hd.scopes s (hk.ne_current hs)
  · exact fun s hs => hd.clauses s (hk.ne_current hs)
  · refine fun i n hn => hd.nodes (q.scopes.encloses k · = true) ?_ i n hn
    rw [hk.left]
    exact Bool.false_ne_true
  · exact fun i s hi hs => hd.children i s hi (hk.not_encloses hs)

/-- A scope that is opened is not inside a closed one. -/
theorem keepsScope_enterSub (hlen : q.clauses.length = q.scopes.size) (hk : q.IsClosed k) :
    q.enterSub.IsClosed k ∧ q.KeepsScope k q.enterSub := by
  have hinside : ∀ s, q.enterSub.scopes.encloses k s = q.scopes.encloses k s :=
    Scopes.encloses_enter hk.opened hk.left
  have hlt : ∀ s, q.scopes.encloses k s = true → s < q.scopes.size := by
    intro s hs
    by_contra hge
    rw [Scopes.encloses_of_size_le hk.opened (Nat.le_of_not_lt hge)] at hs
    cases hs
  refine ⟨⟨?_, ?_⟩, hinside, ?_, ?_, fun _ _ _ => Iff.rfl, fun _ _ _ _ => rfl⟩
  · exact Nat.lt_of_lt_of_le hk.opened q.scopes.extends_enter.size_le
  · exact (hinside _).trans (Scopes.encloses_of_size_le hk.opened (Nat.le_refl _))
  · intro s hs
    show q.scopes.enter.scope? s = _
    rw [Scopes.scope?_enter, if_neg (Nat.ne_of_lt (hlt s hs))]
  · intro s hs
    show (q.clauses ++ [.empty])[s]? = _
    rw [List.getElem?_append_left (hlen ▸ hlt s hs)]

/-- Closing a scope leaves those closed that are. -/
theorem keepsScope_leaveSub {outer : Nat} (ho : q.scopes.outer? q.current = some outer)
    (hk : q.IsClosed k) (p : Pending) :
    IsClosed { q.leaveSub q.current with pending := p } k ∧
      q.KeepsScope k { q.leaveSub q.current with pending := p } := by
  have hext := q.scopes.extends_leave q.current
  have hcur : (q.scopes.leave q.current).current = outer := Scopes.current_leave ho
  have hinside := hext.encloses_eq_of_size (q.scopes.size_leave q.current) hk.opened
  refine ⟨⟨Nat.lt_of_lt_of_le hk.opened hext.size_le, ?_⟩, hinside,
    fun s _ => q.scopes.scope?_leave q.current s, fun _ _ => rfl, fun _ _ _ => Iff.rfl,
    fun _ _ _ _ => rfl⟩
  show (q.scopes.leave q.current).encloses k (q.scopes.leave q.current).current = false
  rw [hcur, hinside, Bool.eq_false_iff]
  intro henc
  have hleft := hk.left
  rw [Scopes.encloses_iff_outer.2 (Or.inr ⟨outer, ho, henc⟩)] at hleft
  cases hleft

end Query

/-! ## Runs -/

namespace Stage

variable {h : Nat → Handles} {s : Stage} {k : Nat}

/-- An event keeps a closed scope closed and as it is. -/
theorem Sound.keepsScope_step (hs : s.Sound h) {e : Event} (he : e.Within (h s.query.current))
    (hk : s.query.IsClosed k) : (s.step e).query.IsClosed k ∧
      s.query.KeepsScope k (s.step e).query :=
  hs.step_relates (R := fun q q' => q.IsClosed k → q'.IsClosed k ∧ q.KeepsScope k q') he
    (fun q hk => ⟨hk, .refl k q⟩)
    (fun h₁ h₂ hk => ⟨(h₂ (h₁ hk).1).1, (h₁ hk).2.trans (h₂ (h₁ hk).1).2⟩)
    (fun _ hc hk => hc.keepsScope hk)
    (fun _ hk => ⟨⟨hk.opened, hk.left⟩, fun _ => rfl, fun _ _ => rfl, fun _ _ => rfl,
      fun _ _ _ => Iff.rfl, fun _ _ _ _ => rfl⟩)
    (fun _ hk => Query.keepsScope_enterSub hs.query.clauses_length hk)
    (fun _ _ ho hk => Query.keepsScope_leaveSub ho hk _) hk

/-- A closed scope stays closed and as it is, whatever is done afterwards. -/
theorem Sound.keepsScope_run (hs : s.Sound fun _ => .any) (hk : s.query.IsClosed k)
    (es : List Event) : (s.run es).query.IsClosed k ∧ s.query.KeepsScope k (s.run es).query := by
  induction es generalizing s with
  | nil => exact ⟨hk, .refl k s.query⟩
  | cons e es ih =>
    obtain ⟨hclosed, hstep⟩ := hs.keepsScope_step e.within_any hk
    obtain ⟨hlater, hrest⟩ := ih (hs.step e.within_any).sound hclosed
    exact ⟨hlater, hstep.trans hrest⟩

/-- The end of the body of a sub-query closes its scope. -/
theorem Sound.isClosed_leaveSub (hs : s.Sound h) {rest : List Frame}
    (hf : s.frames = .sub k :: rest) (succeeded : Bool) :
    (s.step (.leaveSub succeeded)).query.IsClosed k := by
  obtain ⟨q, fs, is⟩ := s
  obtain rfl : fs = .sub k :: rest := hf
  obtain ⟨outer, _, _, hcur, -, houter, -⟩ := hs.nested.of_sub
  obtain rfl : k = q.current := hcur
  obtain ⟨p, heq⟩ := query_closeSub ⟨q, .sub q.current :: rest, is⟩ q.current rest succeeded
  show (Stage.closeSub ⟨q, .sub q.current :: rest, is⟩ q.current rest succeeded).query.IsClosed _
  rw [heq]
  have hext := q.scopes.extends_leave q.current
  refine ⟨Nat.lt_of_lt_of_le q.scopes.current_lt hext.size_le, ?_⟩
  show (q.scopes.leave q.current).encloses q.current (q.scopes.leave q.current).current = false
  rw [Scopes.current_leave houter, Bool.eq_false_iff]
  intro henc
  exact absurd (Scopes.le_of_encloses henc) (Nat.not_le.2 (Scopes.outer?_lt houter))

end Stage

/-! ## Dead handles -/

namespace Build

variable {α β : Type} {q : Query}

/-- Whether an operation fails and changes nothing but the pending accesses. -/
structure Fails (x : Build α) (q : Query) : Prop where
  error : ∃ e, (x q).1 = .error e
  unchanged : ∃ pending, (x q).2 = { q with pending := pending }

theorem Fails.bind {x : Build α} (hx : x.Fails q) (f : α → Build β) : (x >>= f).Fails q := by
  obtain ⟨e, he⟩ := hx.error
  have hbind : (x >>= f) q = (.error e, (x q).2) := bind_of_error (Prod.ext he rfl)
  exact ⟨⟨e, by rw [hbind]⟩, by rw [hbind]; exact hx.unchanged⟩

/-- What fails after a question fails with it. -/
theorem fails_ask_bind {f : Query → Except Error α} {g : α → Build β}
    (hg : ∀ a, f q = .ok a → (g a).Fails q) : (ask f >>= g).Fails q := by
  cases hf : f q with
  | error e => exact Fails.bind ⟨⟨e, hf⟩, q.pending, rfl⟩ g
  | ok a =>
    have hbind : (ask f >>= g) q = g a q := bind_of_ok (Prod.ext hf rfl)
    exact ⟨by rw [hbind]; exact (hg a hf).error, by rw [hbind]; exact (hg a hf).unchanged⟩

end Build

namespace Query

open Build

variable {q : Query} {p : Placeholder}

theorem not_checkVisible {i : Nat} (hi : ¬ q.Sees i) : ∃ e, q.checkVisible i none = .error e := by
  cases hv : q.checkVisible i none with
  | error e => exact ⟨e, rfl⟩
  | ok u => exact absurd (checkVisible_eq_ok_iff.1 hv) hi

/-- A node that is not seen is not captured. -/
theorem capture_fails (hp : ¬ q.Sees p.node) (operation : String) :
    (capture operation p).Fails q := by
  refine fails_ask_bind fun node hnode => ?_
  obtain rfl := eq_of_checkPlaceholder hnode
  obtain ⟨pending, hpending⟩ := consume_pends operation p p.node q
  obtain ⟨e, he⟩ := not_checkVisible (q := { q with pending := pending }) hp
  cases hr : (consume operation p p.node q).1 with
  | error e => exact Fails.bind ⟨⟨e, hr⟩, pending, hpending⟩ _
  | ok u =>
    have hconsume : consume operation p p.node q = (.ok u, { q with pending := pending }) :=
      Prod.ext hr hpending
    have hask : (ask (·.checkVisible p.node none) : Build Unit) { q with pending := pending } =
        (.error e, { q with pending := pending }) := Prod.ext he rfl
    constructor
    · rw [bind_of_ok hconsume, bind_of_error hask]
      exact ⟨e, rfl⟩
    · rw [bind_of_ok hconsume, bind_of_error hask]
      exact ⟨pending, rfl⟩

/-- A scope sees the nodes that it has joined. -/
theorem sees_of_checkJoined {i : Nat} (hi : q.checkJoined i = .ok ()) : q.Sees i := by
  obtain ⟨n, hn, hs, -⟩ := joins_of_checkJoined (h := .any) hi
  exact ⟨n.scope, Graph.scope?_eq_some_iff.2 ⟨n, hn, rfl⟩, hs ▸ Scopes.encloses_self _ _⟩

theorem access_fails (hp : ¬ q.Sees p.node) (property : String) : (access p property).Fails q := by
  refine fails_ask_bind fun node hnode => ?_
  obtain rfl := eq_of_checkPlaceholder hnode
  exact fails_ask_bind fun u hu => absurd (checkOwner_eq_ok_iff.1 hu).2 hp

theorem onJoin_fails {join property : Placeholder}
    (hp : ¬ q.Sees join.node ∨ ¬ q.Sees property.node) : (onJoin join property).Fails q := by
  refine fails_ask_bind fun node hnode => ?_
  obtain rfl := eq_of_checkPlaceholder hnode
  refine fails_ask_bind fun u hu => ?_
  rcases hp with hjoin | hproperty
  · exact absurd (sees_of_checkJoined hu) hjoin
  · exact (capture_fails hproperty "with").bind _

end Query

/-- The placeholders that a restriction is started with. -/
def Opening.placeholders : Opening → List Placeholder
  | .filter p => [p]
  | .onJoin join property => [join, property]
  | .expression _ => []

/-- The placeholders that a call is given. -/
def Call.placeholders : Call → List Placeholder
  | .access p _ | .operand p | .join p _ | .select p | .selectAggregate _ _ p | .groupBy p
  | .orderBy p _ => [p]
  | .restrict opening _ _ => opening.placeholders
  | _ => []

open Query

variable {q : Query} {p : Placeholder}

theorem Opening.fails_subject (hp : ¬ q.Sees p.node) (o : Opening) (ho : p ∈ o.placeholders) :
    o.subject.Fails q := by
  cases o with
  | filter p' =>
    obtain rfl := List.mem_singleton.1 ho
    exact (capture_fails hp "where").bind _
  | onJoin join property =>
    rcases List.mem_pair.1 ho with rfl | rfl
    · exact onJoin_fails (Or.inl hp)
    · exact onJoin_fails (Or.inr hp)
  | expression e => cases ho

/-- Whether every operation on a placeholder fails, in whatever position it is given, and changes
nothing but the pending accesses. -/
structure Query.Refuses (q : Query) (p : Placeholder) : Prop where
  call : ∀ c : Call, p ∈ c.placeholders → c.run.Fails q
  /-- The start of a restriction that is completed by a body. -/
  opening : ∀ o : Opening, p ∈ o.placeholders → o.subject.Fails q
  /-- The end of such a body. -/
  comparison : ∀ s guard op, (compareProperty s guard op p).Fails q

theorem Call.fails_run (hp : ¬ q.Sees p.node) (c : Call) (hc : p ∈ c.placeholders) :
    c.run.Fails q := by
  cases c with
  | access p' property =>
    obtain rfl := List.mem_singleton.1 hc
    exact (access_fails hp property).bind _
  | operand p' =>
    obtain rfl := List.mem_singleton.1 hc
    exact (capture_fails hp "expression").bind _
  | join p' type =>
    obtain rfl := List.mem_singleton.1 hc
    exact ((capture_fails hp "join").bind _).bind _
  | restrict opening guard completion => exact (opening.fails_subject hp hc).bind _
  | select p' | selectAggregate _ _ p' =>
    obtain rfl := List.mem_singleton.1 hc
    exact (capture_fails hp "select").bind _
  | groupBy p' =>
    obtain rfl := List.mem_singleton.1 hc
    exact (capture_fails hp "group by").bind _
  | orderBy p' direction =>
    obtain rfl := List.mem_singleton.1 hc
    exact (capture_fails hp "order by").bind _
  | _ => cases hc

theorem Query.refuses_of_not_sees (hp : ¬ q.Sees p.node) : q.Refuses p where
  call := Call.fails_run hp
  opening := Opening.fails_subject hp
  comparison _ _ _ := ((capture_fails hp "comparison").bind _).bind _

/-! ## Closed for ever -/

/-- What holds for ever of a scope that was closed. -/
structure Query.StaysClosed (closed : Query) (k : Nat) (later : Query) : Prop where
  /-- It is not current again, and neither is a scope inside it. -/
  isClosed : later.IsClosed k
  kept : closed.KeepsScope k later
  /-- Its nodes and those of the scopes inside are joined and written as they are. -/
  joinType : ∀ i s, closed.graph.scope? i = some s → closed.scopes.encloses k s = true →
    later.graph.joinType i = closed.graph.joinType i
  aliases : ∀ i s, closed.graph.scope? i = some s → closed.scopes.encloses k s = true →
    later.graph.alias? i = closed.graph.alias? i
  /-- The handles of these nodes are dead. -/
  refuses : ∀ p s, later.graph.scope? p.node = some s → closed.scopes.encloses k s = true →
    later.Refuses p

namespace Stage

variable {s : Stage} {k : Nat}

/-- **Closed for ever.** Once a sub-query is closed, in success or failure, nothing that is done
afterwards changes its scope, and no operation accepts a node of it. -/
theorem Reachable.staysClosed (h : s.Reachable) {rest : List Frame}
    (hf : s.frames = .sub k :: rest) (succeeded : Bool) (es : List Event) :
    (s.step (.leaveSub succeeded)).query.StaysClosed k
      ((s.step (.leaveSub succeeded)).run es).query := by
  have hs := (h.run [.leaveSub succeeded]).sound
  rw [run_cons, run_nil] at hs
  obtain ⟨hclosed, hkept⟩ := hs.keepsScope_run (h.sound.isClosed_leaveSub hf succeeded) es
  have hext := (hs.run es).kept.query
  refine ⟨hclosed, hkept, fun _ _ => hkept.joinType_eq hext, fun _ _ => hkept.alias?_eq hext, ?_⟩
  intro p t hp henc
  refine Query.refuses_of_not_sees ?_
  rintro ⟨r, hr, hsees⟩
  cases hp.symm.trans hr
  have hleft := hclosed.not_encloses ((hkept.inside t).trans henc)
  exact Bool.false_ne_true (hleft.symm.trans hsees)

/-- A query in the body of a sub-query on cars. -/
def sampleCars : Stage :=
  (start Sample.registry .default).run
    [.call (.addFrom "Person"), .enterSub, .call (.addFrom "Car"),
      .call (.access ⟨1, .root⟩ "model"), .call (.select ⟨2, .property⟩)]

/-- After the end of it the query accesses a town, and opens another sub-query on cars. -/
theorem sampleCars_staysClosed : sampleCars.Reachable ∧ sampleCars.frames = [.sub 1] ∧
    (sampleCars.step (.leaveSub true)).query.StaysClosed 1
      ((sampleCars.step (.leaveSub true)).run [.call (.access ⟨0, .root⟩ "town"), .call .drain,
        .enterSub, .call (.addFrom "Car")]).query ∧
    ((sampleCars.step (.leaveSub true)).run [.call (.access ⟨0, .root⟩ "town"), .call .drain,
        .enterSub, .call (.addFrom "Car")]).query.Refuses ⟨2, .property⟩ := by
  have hstays := Reachable.staysClosed (reachable_start _ _ _ : sampleCars.Reachable) rfl true
    [.call (.access ⟨0, .root⟩ "town"), .call .drain, .enterSub, .call (.addFrom "Car")]
  exact ⟨reachable_start _ _ _, rfl, hstays, hstays.refuses ⟨2, .property⟩ 1 rfl rfl⟩

end Stage

end PathQuery
