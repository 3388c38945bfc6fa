import Mathlib.Logic.Relation
import PathQuery.Proofs.Order
import PathQuery.Proofs.Run

/-!
# What a call can change

A call of any kind is a sequence of *changes*, of which there are six: to the pending accesses, to
the bindings, a root, a child, a join type, and an addition to the clauses of the current scope.
A change is listed with all that the call has checked before it, so an invariant of runs is proved
for the six changes and for entering and leaving a body, and never for the calls one by one.

**Fitting.** What is added to the clauses of a scope *fits* there: a node that was captured is seen
from the scope, an expression or sub-query is one that the query was given, and a sub-query was
opened directly inside the scope. A node captured by a condition of a join is *up to* the join.

Main statements: `Call.leads`, `Opening.leads` and `compareProperty_leads`.
-/

namespace PathQuery

/-- Only an entity or a collection is joined. -/
theorem Graph.reservesAlias_of_joinType {g : Graph} {i : Nat} {n : Node}
    (h : g.joinType i ≠ .none) (hn : g.node? i = some n) : n.kind.reservesAlias = true := by
  rw [joinType, hn] at h
  cases hk : n.kind <;> simp [hk, NodeKind.reservesAlias] at h ⊢

theorem NodeKind.isEntity_of_reservesAlias {kind : NodeKind} (h : kind.reservesAlias = true) :
    kind.isEntity = true := by
  cases kind <;> first | rfl | cases h

/-! ## Fitting -/

/-- A scope of a query, with the handles that may be used in it. -/
structure Site where
  handles : Handles
  graph : Graph
  scopes : Scopes
  scope : Nat

namespace Site

variable {w w' : Site}

/-- Whether a node may be named: it was created by the scope or by one around it. -/
def Sees (w : Site) (i : Nat) : Prop :=
  ∃ s, w.graph.scope? i = some s ∧ w.scopes.encloses s w.scope = true

/-- Whether a sub-query may be tested: it was given, and it is directly inside the scope. -/
def Asks (w : Site) (sub : Nat) : Prop :=
  w.handles.sub sub ∧ w.scopes.outer? sub = some w.scope

/-- Whether conditions may be put on the join of a node: the scope has joined it itself, and it is
no root but can own an alias. -/
def Joins (w : Site) (i : Nat) : Prop :=
  ∃ n, w.graph.node? i = some n ∧ n.scope = w.scope ∧ n.kind.reservesAlias = true ∧
    n.join.isSome = true

/-- Whether a node may be named up to a join point: its entity stands no later than that, unless
another scope declares it. -/
def UpTo (w : Site) (b i : Nat) : Prop :=
  w.graph.scope? (w.graph.nearestEntity i) = some w.scope →
    Scopes.metBy (w.graph.nearestEntity i) b (w.scopes.declarationOrder w.graph w.scope) = true

/-- The same scope at a later moment. -/
structure Grows (w w' : Site) : Prop where
  expression : ∀ {e}, w.handles.expression e → w'.handles.expression e
  sub : ∀ {s}, w.handles.sub s → w'.handles.sub s
  graph : w.graph.Extends w'.graph
  scopes : w.scopes.Extends w'.scopes
  owned : Owned w.graph w.scopes
  owned' : Owned w'.graph w'.scopes
  scope : w'.scope = w.scope
  scope_lt : w.scope < w.scopes.size

theorem Sees.lt_size {i : Nat} (h : w.Sees i) : i < w.graph.size := by
  obtain ⟨s, hs, -⟩ := h
  exact Graph.lt_size_of_scope? hs

theorem Joins.lt_size {i : Nat} (h : w.Joins i) : i < w.graph.size := by
  obtain ⟨n, hn, -⟩ := h
  exact Graph.lt_size_of_node? hn

theorem Sees.grows {i : Nat} (h : w.Sees i) (hw : w.Grows w') : w'.Sees i := by
  obtain ⟨s, hs, he⟩ := h
  exact ⟨s, hw.graph.scope? hs, by rw [hw.scope, hw.scopes.encloses_eq hw.scope_lt, he]⟩

theorem Asks.grows {sub : Nat} (h : w.Asks sub) (hw : w.Grows w') : w'.Asks sub := by
  obtain ⟨hs, ho⟩ := h
  have hlt : sub < w.scopes.size := by
    by_contra hge
    rw [Scopes.outer?, Scopes.scope?, List.getElem?_eq_none (Nat.le_of_not_lt hge)] at ho
    cases ho
  exact ⟨hw.sub hs, by rw [hw.scope, hw.scopes.outer?_eq hlt, ho]⟩

theorem Joins.grows {i : Nat} (h : w.Joins i) (hw : w.Grows w') : w'.Joins i := by
  obtain ⟨n, hn, hs, he, hj⟩ := h
  obtain ⟨j, hj', hsome⟩ := hw.graph.node hn
  exact ⟨_, hj', hs.trans hw.scope.symm, he, hsome hj⟩

/-- What stood no later than a join point does so for ever. -/
theorem UpTo.grows {b i : Nat} (h : w.UpTo b i) (hb : w.Joins b) (hi : w.Sees i)
    (hw : w.Grows w') : w'.UpTo b i := by
  have hentity : w.graph.nearestEntity i < w.graph.size :=
    Nat.lt_of_le_of_lt (w.graph.nearestEntity_le i) hi.lt_size
  unfold UpTo at h ⊢
  rw [hw.graph.nearestEntity_eq hi.lt_size, hw.graph.scope?_eq hentity, hw.scope,
    hw.owned.metBy_eq hw.owned' hw.graph hentity hb.lt_size]
  exact h

end Site

def Operand.Fits (w : Site) : Operand Nat → Prop
  | .node i => w.Sees i
  | .expression e => w.handles.expression e
  | .value _ | .parameter _ => True

def Test.Fits (w : Site) (t : Test) : Prop :=
  (∀ o ∈ t.operands, o.Fits w) ∧ ∀ sub ∈ t.subs, w.Asks sub

def Condition.Fits (w : Site) (c : Condition) : Prop := ∀ t ∈ c.tests, t.Fits w

/-- Whether a place is one that conditions of the scope can be put in. -/
def Place.Fits (w : Site) : Place → Prop
  | .filter => True
  | .join node => w.Joins node

/-- Whether a condition that is put in a place may name a node. -/
def Place.UpTo (w : Site) (i : Nat) : Place → Prop
  | .filter => True
  | .join node => w.UpTo node i

/-- Whether the nodes that a condition captures may be named up to a join point. -/
def Condition.UpTo (w : Site) (b : Nat) (c : Condition) : Prop :=
  ∀ t ∈ c.tests, ∀ i, .node i ∈ t.operands → w.UpTo b i

structure Addition.Fits (w : Site) (a : Addition) : Prop where
  items : ∀ o ∈ a.items, o.Fits w
  conditions : ∀ c ∈ a.conditions, c.Fits w
  place : ∀ node c, a = .onJoin node c → w.Joins node ∧ c.UpTo w node

structure Subject.Fits (w : Site) (s : Subject) : Prop where
  place : s.place.Fits w
  left : s.left.Fits w
  upTo : ∀ i, s.left = .node i → s.place.UpTo w i

section

variable {w w' : Site} (hw : w.Grows w')

include hw

theorem Operand.Fits.grows {o : Operand Nat} (h : o.Fits w) : o.Fits w' := by
  cases o with
  | node i => exact Site.Sees.grows h hw
  | value v => trivial
  | parameter name => trivial
  | expression e => exact hw.expression h

theorem Condition.Fits.grows {c : Condition} (h : c.Fits w) : c.Fits w' := fun t ht =>
  ⟨fun o ho => ((h t ht).1 o ho).grows hw, fun sub hs => ((h t ht).2 sub hs).grows hw⟩

theorem Condition.UpTo.grows {b : Nat} {c : Condition} (h : c.UpTo w b) (hb : w.Joins b)
    (hc : c.Fits w) : c.UpTo w' b := fun t ht i hi =>
  (h t ht i hi).grows hb ((hc t ht).1 (.node i) hi) hw

theorem Place.Fits.grows {p : Place} (h : p.Fits w) : p.Fits w' := by
  cases p with
  | filter => trivial
  | join node => exact Site.Joins.grows h hw

theorem Place.UpTo.grows {p : Place} {i : Nat} (h : p.UpTo w i) (hp : p.Fits w)
    (hi : w.Sees i) : p.UpTo w' i := by
  cases p with
  | filter => trivial
  | join node => exact Site.UpTo.grows h hp hi hw

theorem Subject.Fits.grows {s : Subject} (h : s.Fits w) : s.Fits w' where
  place := h.place.grows hw
  left := h.left.grows hw
  upTo i hi := (h.upTo i hi).grows hw h.place (by simpa [hi, Operand.Fits] using h.left)

end

theorem Condition.fits_test {w : Site} {guard : Guard} {t : Test} :
    (Condition.test guard t).Fits w ↔ t.Fits w := by
  simp [Condition.Fits, Condition.tests]

/-! ## Changes -/

namespace Query

/-- The current scope of a query, with given handles. -/
def site (q : Query) (h : Handles) : Site := ⟨h, q.graph, q.scopes, q.current⟩

/-- The query with an addition in the innermost group, if it is for that, or else in the clauses of
the current scope. -/
def add (q : Query) : Addition → Query
  | .filter c => q.addFilter c
  | a => q.modifyClauses (·.add a)

inductive Change (h : Handles) (q : Query) : Query → Prop
  | pending (p : Pending) : Change h q { q with pending := p }
  | bind (name : String) (value : Value) :
    Change h q { q with bindings := q.bindings.set name value }
  | root (type : String) (known : q.schema.isEntity type = true) :
    Change h q
      { q with
        graph := q.graph.addRoot type q.aliases.next q.current
        aliases := q.aliases.advance
        scopes := q.scopes.addRoot q.graph.size }
  | child (owner : Nat) (property : String) (r : Resolved) (seen : (q.site h).Sees owner)
    (kind : q.graph.kind? owner ≠ some .property)
    (new : q.graph.findChild? owner property (q.scopes.encloses · q.current) = none)
    (resolved : q.schema.resolve? (q.graph.target owner) property = some r) :
    Change h q (q.withChild owner property (childSpec q.schema r))
  | join (node : Nat) (type : Join) (own : q.graph.scope? node = some q.current)
    (root : q.graph.kind? node ≠ some .root) (property : q.graph.kind? node ≠ some .property) :
    Change h q { q with graph := q.graph.setJoin node type }
  | add (a : Addition) (fits : a.Fits (q.site h)) : Change h q (q.add a)

end Query

/-! ## Operations as sequences of changes -/

/-- An operation only makes changes, and leaves what is said of its result and the query. -/
structure Build.Leads {α : Type} (h : Handles) (x : Build α) (q : Query) (post : α → Query → Prop) :
    Prop where
  changes : Relation.ReflTransGen (Query.Change h) q (x q).2
  result : ∀ a, (x q).1 = .ok a → post a (x q).2

namespace Build

variable {α β : Type} {h : Handles} {q : Query}

theorem leads_pure {a : α} {post : α → Query → Prop} (ha : post a q) :
    Leads h (pure a : Build α) q post :=
  ⟨.refl, fun b hb => by cases hb; exact ha⟩

theorem leads_ask {f : Query → Except Error α} {post : α → Query → Prop}
    (hf : ∀ a, f q = .ok a → post a q) : Leads h (ask f) q post :=
  ⟨.refl, hf⟩

theorem leads_change {f : Query → Query} {post : Unit → Query → Prop}
    (hc : Query.Change h q (f q)) (hf : post () (f q)) : Leads h (change f) q post :=
  ⟨.single hc, fun _ _ => hf⟩

theorem leads_bind {x : Build α} {f : α → Build β} {post : β → Query → Prop}
    (mid : α → Query → Prop) (hx : Leads h x q mid)
    (hf : ∀ a q', mid a q' → Leads h (f a) q' post) : Leads h (x >>= f) q post := by
  cases hr : x q with
  | mk r q' =>
    have hc := hx.changes
    have hm := hx.result
    rw [hr] at hc hm
    cases r with
    | error e =>
      constructor
      · rw [bind_of_error hr]; exact hc
      · intro b hb; rw [bind_of_error hr] at hb; cases hb
    | ok a =>
      have hfa := hf a q' (hm a rfl)
      constructor
      · rw [bind_of_ok hr]; exact hc.trans hfa.changes
      · intro b hb; rw [bind_of_ok hr] at hb ⊢; exact hfa.result b hb

theorem Leads.imp {x : Build α} {post post' : α → Query → Prop} (hx : Leads h x q post)
    (himp : ∀ a q', post a q' → post' a q') : Leads h x q post' :=
  ⟨hx.changes, fun a ha => himp a _ (hx.result a ha)⟩

/-- An operation whose result is of no interest. -/
theorem leads_ignore {x : Build α} {post : α → Query → Prop} (hx : Leads h x q post) :
    Leads h (do let _ ← x; return ()) q fun _ _ => True :=
  leads_bind _ hx fun _ _ _ => leads_pure trivial

end Build

namespace Query

open Build

variable {h : Handles} {q : Query}

/-! ## Checks and captures -/

theorem sees_of_checkVisible {node : Nat} {bound : Option Nat}
    (hv : q.checkVisible node bound = .ok ()) : (q.site h).Sees node := by
  unfold checkVisible at hv
  split at hv
  · next hvis =>
    unfold Scopes.isVisible at hvis
    split at hvis
    · cases hvis
    · next s hs =>
      rw [Bool.and_eq_true] at hvis
      exact ⟨s, hs, hvis.1⟩
  · cases hv

/-- A node that is visible up to a join point may be named up to it. -/
theorem upTo_of_checkVisible {node b : Nat} (hv : q.checkVisible node (some b) = .ok ()) :
    (q.site h).UpTo b node := by
  unfold checkVisible at hv
  split at hv
  · next hvis =>
    unfold Scopes.isVisible at hvis
    split at hvis
    · cases hvis
    · intro hs
      rw [Bool.and_eq_true, Bool.or_eq_true, bne_iff_ne] at hvis
      exact hvis.2.resolve_left fun hne => hne hs
  · cases hv

/-- A check gives the node of the placeholder. -/
theorem eq_of_checkPlaceholder {p : Placeholder} {i : Nat} (hp : q.checkPlaceholder p = .ok i) :
    i = p.node := by
  rw [checkPlaceholder] at hp
  split at hp
  · exact (Except.ok.inj hp).symm
  · cases hp

/-- Consuming an access uses up pending accesses and changes nothing else. -/
theorem consume_pends (operation : String) (p : Placeholder) (node : Nat) (q : Query) :
    ∃ pending, (consume operation p node q).2 = { q with pending := pending } := by
  rw [consume]
  split
  · exact ⟨q.pending, rfl⟩
  · cases hr : q.pending.single operation with
    | error e =>
      have htake : takePending operation q = (.error e, { q with pending := .none }) :=
        Prod.ext hr rfl
      exact ⟨.none, by rw [bind_of_error htake]⟩
    | ok found =>
      have htake : takePending operation q = (.ok found, { q with pending := .none }) :=
        Prod.ext hr rfl
      rw [bind_of_ok htake]
      split
      · exact ⟨.none, rfl⟩
      · exact ⟨.none, rfl⟩

/-- Capturing uses up pending accesses and changes nothing else. A node that was captured is that
of the placeholder and is seen from the current scope. -/
theorem capture_leads (operation : String) (p : Placeholder) :
    Leads h (capture operation p) q fun a q' =>
      (∃ pending, q' = { q with pending := pending }) ∧ a = p.node ∧ (q'.site h).Sees a := by
  refine leads_bind (fun a q' => q' = q ∧ a = p.node)
    (leads_ask fun _ ha => ⟨rfl, eq_of_checkPlaceholder ha⟩) ?_
  rintro a q' ⟨rfl, rfl⟩
  refine leads_bind (fun _ q'' => ∃ pending, q'' = { q' with pending := pending }) ?_ ?_
  · obtain ⟨pending, hpending⟩ := consume_pends operation p p.node q'
    exact ⟨hpending ▸ .single (.pending pending), fun _ _ => ⟨pending, hpending⟩⟩
  rintro _ q'' hq
  refine leads_bind (fun _ q₃ => q₃ = q'' ∧ (q''.site h).Sees p.node)
    (leads_ask fun _ hv => ⟨rfl, sees_of_checkVisible hv⟩) ?_
  rintro _ q₃ ⟨rfl, hs⟩
  exact leads_pure ⟨hq, rfl, hs⟩

theorem drain_leads : Leads h drain q fun _ _ => True :=
  ⟨.single (.pending .none), fun _ _ => trivial⟩

/-! ## Additions -/

theorem addTest_leads {place : Place} (guard : Guard) {t : Test} (hp : place.Fits (q.site h))
    (ht : t.Fits (q.site h)) (hi : ∀ i, .node i ∈ t.operands → place.UpTo (q.site h) i) :
    Leads h (addTest place guard t) q fun _ q' => q' = q.addCondition place (.test guard t) := by
  refine leads_change ?_ rfl
  have hc : (Condition.test guard t).Fits (q.site h) := Condition.fits_test.2 ht
  cases place with
  | filter =>
    exact .add (.filter _)
      ⟨by simp [Addition.items], by simpa [Addition.conditions], by simp⟩
  | join node =>
    refine .add (.onJoin node _) ⟨by simp [Addition.items], by simpa [Addition.conditions], ?_⟩
    rintro _ _ ⟨rfl, rfl⟩
    refine ⟨hp, fun t' ht' => ?_⟩
    obtain rfl := List.mem_singleton.1 ht'
    exact hi

/-- An addition that holds one operand and no condition. -/
theorem fits_of_item {w : Site} {a : Addition} {o : Operand Nat} (ho : o.Fits w)
    (hi : a.items = [o]) (hc : a.conditions = []) : a.Fits w where
  items := by simpa [hi]
  conditions := by simp [hc]
  place _ _ ha := by rw [ha] at hc; cases hc

/-- An operation on one captured node that adds it to the clauses. -/
theorem capture_add_leads (operation : String) (p : Placeholder) (a : Nat → Addition)
    (hi : ∀ i, (a i).items = [.node i]) (hc : ∀ i, (a i).conditions = []) :
    Leads h (do let i ← capture operation p; .change (·.add (a i))) q fun _ _ => True := by
  refine leads_bind _ (capture_leads operation p) ?_
  rintro i q' ⟨-, -, hs⟩
  exact leads_change (.add _ (fits_of_item (o := .node i) hs (hi i) (hc i))) trivial

/-! ## Subjects -/

theorem filter_leads (p : Placeholder) :
    Leads h (filter p) q fun s q' => s.Fits (q'.site h) := by
  refine leads_bind _ (capture_leads "where" p) ?_
  rintro i q' ⟨-, -, hs⟩
  exact leads_pure ⟨trivial, hs, fun _ _ => trivial⟩

theorem joins_of_checkJoined {node : Nat} (hc : q.checkJoined node = .ok ()) :
    (q.site h).Joins node := by
  unfold checkJoined at hc
  split at hc
  · cases hc
  · next hcond =>
    rw [not_or, not_not] at hcond
    split at hc
    · cases hc
    · next htype =>
      obtain ⟨n, hn, hs⟩ := Graph.scope?_eq_some_iff.1 hcond.2
      refine ⟨n, hn, hs, Graph.reservesAlias_of_joinType htype hn, ?_⟩
      simpa [hn, Option.isSome_iff_ne_none] using hcond.1

/-- The condition of a join is started on the nodes of the placeholders. Only pending accesses are
changed. -/
theorem onJoin_leads (join property : Placeholder) :
    Leads h (onJoin join property) q fun s q' => (∃ pending, q' = { q with pending := pending }) ∧
      s = ⟨.join join.node, .node property.node⟩ ∧ s.Fits (q'.site h) := by
  refine leads_bind (fun i q' => q' = q ∧ i = join.node)
    (leads_ask fun _ hi => ⟨rfl, eq_of_checkPlaceholder hi⟩) ?_
  rintro node q' ⟨rfl, rfl⟩
  refine leads_bind (fun _ q'' => q'' = q' ∧ (q'.site h).Joins join.node)
    (leads_ask fun _ hc => ⟨rfl, joins_of_checkJoined hc⟩) ?_
  rintro _ q'' ⟨rfl, hj⟩
  refine leads_bind _ (capture_leads "with" property) ?_
  rintro left q₃ ⟨⟨pending, rfl⟩, rfl, hs⟩
  refine leads_bind (fun _ q₄ => q₄ = { q'' with pending := pending } ∧
    (q₄.site h).UpTo join.node property.node)
    (leads_ask fun _ hv => ⟨rfl, upTo_of_checkVisible hv⟩) ?_
  rintro _ q₄ ⟨rfl, hu⟩
  refine leads_pure ⟨⟨pending, rfl⟩, rfl, hj, hs, ?_⟩
  rintro i ⟨⟩
  exact hu

/-! ## Calls -/

theorem addFrom_leads (type : String) :
    Leads h (addFrom type) q fun _ _ => True := by
  refine ⟨?_, fun _ _ => trivial⟩
  unfold addFrom
  split
  · next known => exact .single (.root type known)
  · exact .refl

theorem child_leads {owner : Nat} (property : String) (seen : (q.site h).Sees owner)
    (kind : q.graph.kind? owner ≠ some .property) :
    Leads h (child owner property) q fun _ _ => True := by
  refine ⟨?_, fun _ _ => trivial⟩
  unfold child
  split
  · exact .refl
  · next new =>
    split
    · next r resolved => exact .single (.child owner property r seen kind new resolved)
    · exact .refl

theorem access_leads (owner : Placeholder) (property : String) :
    Leads h (access owner property) q fun _ _ => True := by
  refine leads_bind (fun _ q' => q' = q) (leads_ask fun _ _ => rfl) ?_
  rintro node q' rfl
  refine leads_bind (fun _ q'' => q'' = q' ∧ (q'.site h).Sees node ∧
    q'.graph.kind? node ≠ some .property) (leads_ask fun _ hc => ⟨rfl, ?_⟩) ?_
  · unfold checkOwner at hc
    split at hc
    · cases hc
    · next hk => exact ⟨sees_of_checkVisible hc, hk⟩
  rintro _ q'' ⟨rfl, hs, hk⟩
  refine leads_bind _ (child_leads property hs hk) ?_
  rintro c q₃ -
  refine leads_bind (fun _ _ => True) (leads_change (.pending _) trivial) ?_
  rintro _ q₄ -
  exact leads_ask fun _ _ => trivial

theorem joinNode_leads (node : Nat) (type : Join) :
    Leads h (joinNode node type) q fun _ _ => True := by
  refine ⟨?_, fun _ _ => trivial⟩
  unfold joinNode
  split
  · next own =>
    split
    · next g hg =>
      unfold Graph.join at hg
      split at hg <;> cases hg
      next k hroot hproperty hk =>
        refine .single (.join node type own ?_ ?_)
        · rw [hk]; rintro ⟨⟩; exact hproperty rfl
        · rw [hk]; rintro ⟨⟩; exact hroot rfl
    · exact .refl
  · exact .refl

theorem join_leads (p : Placeholder) (type : Join) :
    Leads h (Query.join p type) q fun _ _ => True := by
  refine leads_bind _ (capture_leads "join" p) ?_
  rintro node q' -
  exact leads_bind _ (joinNode_leads node type) fun _ _ _ => leads_pure trivial

theorem asks_of_checkSub {scope : Nat} (hs : h.sub scope) (hc : q.checkSub scope = .ok ()) :
    (q.site h).Asks scope := by
  unfold checkSub at hc
  split at hc
  · next ho => exact ⟨hs, ho⟩
  · cases hc

/-- A test on a sub-query, after the check that the sub-query is a direct one. -/
theorem addSubTest_leads {place : Place} (guard : Guard) {t : Test} {scope : Nat}
    (hp : place.Fits (q.site h)) (ho : ∀ o ∈ t.operands, o.Fits (q.site h))
    (hi : ∀ i, .node i ∈ t.operands → place.UpTo (q.site h) i)
    (ht : t.subs = [scope]) (hs : h.sub scope) :
    Leads h (do .ask (·.checkSub scope); addTest place guard t) q
      fun _ q' => q' = q.addCondition place (.test guard t) := by
  refine leads_bind (fun _ q' => q' = q ∧ (q.site h).Asks scope)
    (leads_ask fun _ hc => ⟨rfl, asks_of_checkSub hs hc⟩) ?_
  rintro _ q' ⟨rfl, ha⟩
  exact addTest_leads guard hp ⟨ho, by simpa [ht]⟩ hi

/-- The right side of a comparison is seen, and up to the place of the comparison. -/
theorem captureRight_leads (place : Place) (p : Placeholder) :
    Leads h (captureRight place p) q fun i q' =>
      (∃ pending, q' = { q with pending := pending }) ∧ i = p.node ∧ (q'.site h).Sees i ∧
        place.UpTo (q'.site h) i := by
  refine leads_bind _ (capture_leads "comparison" p) ?_
  rintro i q' ⟨hq, hp, hi⟩
  cases place with
  | filter => exact leads_pure ⟨hq, hp, hi, trivial⟩
  | join node =>
    refine leads_bind (fun _ q'' => q'' = q' ∧ (q'.site h).UpTo node i)
      (leads_ask fun _ hv => ⟨rfl, upTo_of_checkVisible hv⟩) ?_
    rintro _ q'' ⟨rfl, hu⟩
    exact leads_pure ⟨hq, hp, hi, hu⟩

/-- Comparing a subject with a property that was just accessed puts the comparison in its place. -/
theorem compareProperty_leads {s : Subject} (hs : s.Fits (q.site h)) (guard : Guard)
    (op : Comparison) (p : Placeholder) :
    Leads h (compareProperty s guard op p) q fun _ q' => ∃ pending,
      q' = ({ q with pending := pending } : Query).addCondition s.place
        (.test guard (.compare s.left op (.node p.node))) := by
  refine leads_bind _ (captureRight_leads s.place p) ?_
  rintro i q' ⟨⟨pending, rfl⟩, rfl, hi, hu⟩
  refine Leads.imp (addTest_leads guard hs.place
    ⟨by simpa [Test.operands] using ⟨hs.left, hi⟩, by simp [Test.subs]⟩ ?_) fun _ _ hq => ⟨_, hq⟩
  intro j hj
  rcases List.mem_pair.1 hj with hleft | hright
  · exact hs.upTo j hleft.symm
  · cases hright
    exact hu

end Query

open Build Query

variable {h : Handles} {q : Query}

theorem Opening.leads (o : Opening) (ho : ∀ e ∈ o.expressions, h.expression e) :
    Leads h o.subject q fun s q' => s.Fits (q'.site h) := by
  cases o with
  | filter p => exact filter_leads p
  | onJoin join property => exact (onJoin_leads join property).imp fun _ _ hs => hs.2.2
  | expression e =>
    refine leads_pure ⟨trivial, ?_, fun _ _ => trivial⟩
    exact ho e (by simp [Opening.expressions])

/-- The test that a completion makes of a subject holds its left side and what the call is given. -/
theorem Completion.fits_test? {w : Site} {s : Subject} {t : Test} (c : Completion) (hs : s.Fits w)
    (he : ∀ e ∈ c.expressions, w.handles.expression e) (ht : c.test? s.left = some t) :
    (∀ o ∈ t.operands, o.Fits w) ∧ ∀ i, .node i ∈ t.operands → s.place.UpTo w i := by
  have hleft : s.left.Fits w := hs.left
  have hnode : ∀ i, .node i = s.left → s.place.UpTo w i := fun i hi => hs.upTo i hi.symm
  cases c with
  | compareExpression op e =>
    cases ht
    have hright : (Operand.expression e).Fits w := he e (by simp [Completion.expressions])
    exact ⟨by simpa [Test.operands] using ⟨hleft, hright⟩, by simpa [Test.operands] using hnode⟩
  | nothing => cases ht
  | _ =>
    cases ht
    exact ⟨by simpa [Test.operands, Operand.Fits] using hleft,
      by simpa [Test.operands] using hnode⟩

/-- Completing a restriction puts its test in the place of the subject. -/
theorem Completion.leads (c : Completion) (guard : Guard) {s : Subject} (hs : s.Fits (q.site h))
    (he : ∀ e ∈ c.expressions, h.expression e) (hc : ∀ scope ∈ c.subs, h.sub scope) :
    Leads h (c.run s guard) q fun _ q' => ∀ t, c.test? s.left = some t →
      q' = q.addCondition s.place (.test guard t) := by
  have hfits := fun t => c.fits_test? (t := t) hs he
  have hadd : ∀ t, c.test? s.left = some t → t.subs = [] →
      Leads h (addTest s.place guard t) q fun _ q' => ∀ t', c.test? s.left = some t' →
        q' = q.addCondition s.place (.test guard t') := by
    intro t ht hsubs
    refine Leads.imp (addTest_leads guard hs.place ⟨(hfits t ht).1, by simp [hsubs]⟩
      (hfits t ht).2) fun _ _ hq t' ht' => ?_
    rw [ht] at ht'
    cases ht'
    exact hq
  cases c with
  | inSub scope negated =>
    have hscope : h.sub scope := hc scope (by simp [Completion.subs])
    refine Leads.imp (addSubTest_leads guard hs.place (hfits _ rfl).1 (hfits _ rfl).2 rfl hscope) ?_
    rintro _ _ hq _ ⟨⟩
    exact hq
  | nothing => exact leads_pure fun _ ht => nomatch ht
  | _ => exact hadd _ rfl rfl

/-- **What a call can change.** A call that is given accepted handles is a sequence of changes. -/
theorem Call.leads (c : Call) (hc : (Event.call c).Within h) :
    Leads h c.run q fun _ _ => True := by
  cases c with
  | addFrom type => exact leads_ignore (addFrom_leads type)
  | access owner property => exact leads_ignore (access_leads owner property)
  | drain => exact leads_ignore drain_leads
  | operand p => exact leads_ignore (capture_leads "expression" p)
  | join p type => exact leads_ignore (join_leads p type)
  | restrict opening guard completion =>
    have he : ∀ e ∈ opening.expressions ++ completion.expressions, h.expression e := hc.1
    refine leads_bind _
      (opening.leads fun e hx => he e (List.mem_append_left completion.expressions hx)) ?_
    intro s q' hs
    exact (completion.leads guard hs (fun e hx => he e (List.mem_append_right _ hx)) hc.2).imp
      fun _ _ _ => trivial
  | hasRows scope negated =>
    have hp : Place.filter.Fits (q.site h) := trivial
    have hs : h.sub scope := hc.2 scope (by simp [Event.subs, Call.subs])
    exact (addSubTest_leads .always hp (by simp [Test.operands]) (by simp [Test.operands]) rfl hs).imp
      fun _ _ _ => trivial
  | select p =>
    exact capture_add_leads "select" p (.projection <| .node ·) (fun _ => rfl) fun _ => rfl
  | selectAggregate func unique p =>
    exact capture_add_leads "select" p (.projection <| .aggregate func unique ·) (fun _ => rfl)
      fun _ => rfl
  | selectExpression e =>
    have he : (Operand.expression e).Fits (q.site h) := hc.1 e (List.mem_singleton_self e)
    exact leads_change (.add (.projection (.expression (.expression e))) (fits_of_item he rfl rfl))
      trivial
  | distinct =>
    exact leads_change (.add .distinct
      ⟨by simp [Addition.items], by simp [Addition.conditions], by simp⟩) trivial
  | groupBy p =>
    exact capture_add_leads "group by" p (.grouping <| .node ·) (fun _ => rfl) fun _ => rfl
  | groupByExpression e =>
    have he : (Operand.expression e).Fits (q.site h) := hc.1 e (List.mem_singleton_self e)
    exact leads_change (.add (.grouping (.expression e)) (fits_of_item he rfl rfl)) trivial
  | orderBy p direction =>
    exact capture_add_leads "order by" p (.ordering <| ⟨.node ·, direction⟩) (fun _ => rfl)
      fun _ => rfl
  | orderByExpression e direction =>
    have he : (Operand.expression e).Fits (q.site h) := hc.1 e (List.mem_singleton_self e)
    exact leads_change (.add (.ordering ⟨.expression e, direction⟩) (fits_of_item he rfl rfl))
      trivial
  | setParameter name value => exact leads_change (.bind name value) trivial

end PathQuery
