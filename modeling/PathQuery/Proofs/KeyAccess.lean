import PathQuery.Proofs.AccessOrder
import PathQuery.Proofs.Closed

/-!
# Accesses decide on joins

An entity without a join type of its own is joined, unless all that a query needs of it is its
identifier, which the foreign key gives as well. Whether this is so can be told from the accesses of
the run: a node has a child because some access has reached it, and every access has reached a child
(`Graph.Traced`).

An access of another property always makes the entity join. Accesses of the identifier alone do not,
if all of them reach the same node. They need not: a scope finds what the scopes around it have
made, so what a sub-query has made first is not found by the query around it, which then makes a
second child for the same identifier (`sub_reaches_key_first`). Children of all scopes are counted,
and with two of them the entity is joined.

Main statement: `run_joinsByAccess`.
-/

namespace PathQuery

/-- An access that has succeeded: a property of a node, and the child that was reached. -/
structure Access where
  owner : Nat
  property : String
  reached : Nat
deriving DecidableEq, Repr

namespace Stage

/-- The access that an event makes, if it succeeds. -/
def access? (s : Stage) : Event → Option Access
  | .call (.access owner property) =>
    match Query.access owner property s.query with
    | (.ok p, _) => some ⟨owner.node, property, p.node⟩
    | (.error _, _) => none
  | _ => none

/-- The accesses that a run makes, in this order. -/
def accesses : Stage → List Event → List Access
  | _, [] => []
  | s, e :: es => (s.access? e).toList ++ accesses (s.step e) es

end Stage

/-! ## One event -/

/-- How the children in a graph change by an event that makes an access, or none. -/
inductive Graph.Reaches (schema : Registry) (t : Scopes) (g : Graph) : Option Access → Graph → Prop
  /-- No child is made. -/
  | still {g'} (old : ∀ i n, g'.node? i = some n → n.parent.isSome → i < g.size) :
    Reaches schema t g none g'
  /-- The child is there. -/
  | found {a} (child : g.HasChildAt a.owner a.property a.reached) : Reaches schema t g (some a) g
  /-- A child is made, since the scope that it is made for sees none. -/
  | made {g' n a} (append : g.AppendsTo g' n) (reached : a.reached = g.size)
    (parent : n.parent = some a.owner) (segment : n.segment = a.property)
    (identifier : n.kind = .entity → n.identifier = schema.identifier? n.target)
    (scope : n.scope = t.current)
    (hidden : ∀ i s, g.HasChildAt a.owner a.property i → g.scope? i = some s →
      t.encloses s t.current = false) : Reaches schema t g (some a) g'

namespace Query

variable {q q' : Query}

theorem identifier_childSpec (schema : Registry) (r : Resolved)
    (hk : (childSpec schema r).kind = .entity) :
    (childSpec schema r).identifier = schema.identifier? (childSpec schema r).target := by
  have hentity : (childSpec schema r).kind.isEntity = true := by rw [hk]; rfl
  exact if_pos hentity

/-- What is reached is found, or made if the current scope sees none. -/
theorem reaches_child {i c : Nat} {property : String} (hi : q.Sees i)
    (hok : child i property q = (.ok c, q')) :
    q.graph.Reaches q.schema q.scopes (some ⟨i, property, c⟩) q'.graph := by
  unfold child at hok
  split at hok
  · next hfound =>
    cases hok
    exact .found (Graph.hasChildAt_of_findChild? hfound).1
  · next hnone =>
    split at hok
    · next r hr =>
      cases hok
      exact .made (appendsTo_withChild (h := .any) hi property _) rfl rfl rfl
        (identifier_childSpec q.schema r) rfl
        fun i s hchild hs => Graph.not_visible_of_findChild? hnone hchild hs
    · cases hok

end Query

/-- Only an access can make a child. -/
theorem Graph.Grows.lt_size {schema : Registry} {g g' : Graph} {m : Option Mark} {i : Nat}
    {n : Node} (h : g.Grows schema m g') (hm : ∀ a, m ≠ some (.access a))
    (hn : g'.node? i = some n) (hp : n.parent.isSome) : i < g.size := by
  cases h with
  | still => exact lt_size_of_node? hn
  | root type name scope =>
    rcases (appendsTo_addRoot g type name scope).cases hn with ⟨-, rfl⟩ | ⟨hlt, -⟩
    · cases hp
    · exact hlt
  | found | child => exact absurd rfl (hm _)
  | @join k node type =>
    rw [← g.size_setJoin k type]
    exact lt_size_of_node? hn

namespace Stage

/-- What an event does to the children in the graph is told by the access that it makes. -/
theorem reaches_step (s : Stage) (e : Event) :
    s.query.graph.Reaches s.query.schema s.query.scopes (s.access? e) (s.step e).query.graph := by
  by_cases he : ∃ owner property, e = .call (.access owner property)
  · obtain ⟨owner, property, rfl⟩ := he
    rw [query_step_access, access?]
    cases hr : Query.access owner property s.query with
    | mk r q =>
      cases r with
      | error e =>
        rw [Query.access_eq_error hr]
        exact .still fun _ _ hn _ => Graph.lt_size_of_node? hn
      | ok p =>
        obtain ⟨-, howner, q₁, hchild, -, rfl⟩ := Query.access_eq_ok_iff.1 hr
        have hreaches := Query.reaches_child (Query.checkOwner_eq_ok_iff.1 howner).2 hchild
        exact hreaches
  · have hnone : s.access? e = none := by
      unfold access?
      split
      · exact absurd ⟨_, _, rfl⟩ he
      · rfl
    have hmark : ∀ a, s.mark? e ≠ some (.access a) := by
      intro a
      unfold mark?
      split
      · split <;> nofun
      · exact absurd ⟨_, _, rfl⟩ he
      · split <;> nofun
      · nofun
    rw [hnone]
    exact .still fun _ _ hn hp => (s.grows_step e).lt_size hmark hn hp

end Stage

/-! ## A run -/

namespace Graph

/-- Whether the children in a graph are those that the accesses of a run have reached. -/
structure Traced (schema : Registry) (t : Scopes) (g : Graph) (as : List Access) : Prop where
  /-- Every access has reached a child. -/
  child : ∀ a ∈ as, g.HasChildAt a.owner a.property a.reached
  /-- Every child was reached by an access. -/
  reached : ∀ {i p}, g.parent? i = some p → ∃ a ∈ as, a.owner = p ∧ a.reached = i
  /-- An entity knows the identifier of its type. -/
  identifier : ∀ {i n p}, g.node? i = some n → n.parent = some p → n.kind = .entity →
    n.identifier = schema.identifier? n.target
  /-- Of two children at one segment the later one was made where the other one is not seen. -/
  apart : ∀ {p x i j s s'}, g.HasChildAt p x i → g.HasChildAt p x j → i < j →
    g.scope? i = some s → g.scope? j = some s' → t.encloses s s' = false

variable {schema : Registry} {t t' : Scopes} {g g' : Graph} {as : List Access} {i p : Nat}

theorem traced_empty (schema : Registry) (t : Scopes) : Traced schema t .empty [] where
  child := nofun
  reached hp := by cases hp
  identifier hn := by cases hn
  apart h := by
    obtain ⟨n, hn, -⟩ := h
    cases hn

theorem HasChildAt.parent? {x : String} (h : g.HasChildAt p x i) : g.parent? i = some p := by
  obtain ⟨n, hn, hp, -⟩ := h
  exact parent?_eq_some_iff.2 ⟨n, hn, hp⟩

/-- The child at the identifier of a type is the identifier of a node of the type. -/
theorem isIdentifierOf_iff {n : Node} {x : String} (h : g.HasChildAt p x i) :
    g.isIdentifierOf n i = true ↔ some x = n.identifier := by
  obtain ⟨m, hm, -, rfl⟩ := h
  rw [isIdentifierOf, hm, Option.map_some, Bool.and_eq_true, beq_iff_eq, and_iff_right_iff_imp]
  intro hid
  rw [← hid]
  rfl

namespace Traced

/-- What was traced stays so, and what is new has to be traced for new children only. -/
theorem grow (h : g.Traced schema t as) (ho : Owned g t) (hext : g.Extends g') (ht : t.Extends t')
    {new : List Access} (hnew : ∀ a ∈ new, g'.HasChildAt a.owner a.property a.reached)
    (hreached : ∀ {i p}, g.size ≤ i → g'.parent? i = some p →
      ∃ a ∈ new, a.owner = p ∧ a.reached = i)
    (hidentifier : ∀ {i n p}, g.size ≤ i → g'.node? i = some n → n.parent = some p →
      n.kind = .entity → n.identifier = schema.identifier? n.target)
    (hapart : ∀ {p x i j s s'}, g'.HasChildAt p x i → g'.HasChildAt p x j → i < j → g.size ≤ j →
      g'.scope? i = some s → g'.scope? j = some s' → t'.encloses s s' = false) :
    g'.Traced schema t' (as ++ new) where
  child a ha := by
    rcases List.mem_append.1 ha with ha | ha
    · exact (hext.hasChildAt_iff (h.child a ha).lt_size).2 (h.child a ha)
    · exact hnew a ha
  reached {i p} hp := by
    by_cases hi : i < g.size
    · rw [hext.parent?_eq hi] at hp
      obtain ⟨a, ha, hap, hai⟩ := h.reached hp
      exact ⟨a, List.mem_append_left _ ha, hap, hai⟩
    · obtain ⟨a, ha, hap, hai⟩ := hreached (Nat.le_of_not_lt hi) hp
      exact ⟨a, List.mem_append_right _ ha, hap, hai⟩
  identifier {i n p} hn hp hk := by
    by_cases hi : i < g.size
    · obtain ⟨m, hm⟩ := exists_node?_of_lt hi
      obtain ⟨j, hj, -⟩ := hext.node hm
      obtain rfl : { m with join := j } = n := Option.some.inj (hj.symm.trans hn)
      have hold := h.identifier hm hp hk
      exact hold
    · exact hidentifier (Nat.le_of_not_lt hi) hn hp hk
  apart {p x i j s s'} hi hj hlt hs hs' := by
    by_cases hjlt : j < g.size
    · have hilt := Nat.lt_trans hlt hjlt
      rw [hext.scope?_eq hilt] at hs
      rw [hext.scope?_eq hjlt] at hs'
      rw [ht.encloses_eq (ho.scope_lt hs')]
      exact h.apart ((hext.hasChildAt_iff hilt).1 hi) ((hext.hasChildAt_iff hjlt).1 hj) hlt hs hs'
    · exact hapart hi hj hlt (Nat.le_of_not_lt hjlt) hs hs'

/-- Where no child is made there is nothing new to trace. -/
theorem still (h : g.Traced schema t as) (ho : Owned g t) (hext : g.Extends g') (ht : t.Extends t')
    (old : ∀ i n, g'.node? i = some n → n.parent.isSome → i < g.size) : g'.Traced schema t' as := by
  have hold : ∀ {i p}, g.size ≤ i → g'.parent? i ≠ some p := by
    intro i p hi hp
    obtain ⟨n, hn, hp⟩ := parent?_eq_some_iff.1 hp
    exact absurd (old i n hn (hp ▸ rfl)) (Nat.not_lt.2 hi)
  rw [← List.append_nil as]
  refine h.grow ho hext ht nofun (fun hi hp => absurd hp (hold hi)) ?_ ?_
  · intro i n p hi hn hp _
    exact absurd (parent?_eq_some_iff.2 ⟨n, hn, hp⟩) (hold hi)
  · intro p x i j s s' _ hj _ hjsize _ _
    exact absurd hj.parent? (hold hjsize)

/-- An access that finds a child is one more that has reached it. -/
theorem found (h : g.Traced schema t as) (ho : Owned g t) (ht : t.Extends t') {a : Access}
    (child : g.HasChildAt a.owner a.property a.reached) : g.Traced schema t' (as ++ [a]) := by
  refine h.grow ho (.refl g) ht (by simpa using child) ?_ ?_ ?_
  · intro i p hi hp
    exact absurd (lt_size_of_parent? hp) (Nat.not_lt.2 hi)
  · intro i n p hi hn _ _
    exact absurd (lt_size_of_node? hn) (Nat.not_lt.2 hi)
  · intro p x i j s s' _ hj _ hjsize _ _
    exact absurd hj.lt_size (Nat.not_lt.2 hjsize)

/-- A child that is made was reached by the access that made it, and the scope that it is made for
sees no other child at its segment. -/
theorem made (h : g.Traced schema t as) (ho : Owned g t) (ht : t.Extends t') {a : Access} {n : Node}
    (append : g.AppendsTo g' n) (reached : a.reached = g.size) (parent : n.parent = some a.owner)
    (segment : n.segment = a.property)
    (identifier : n.kind = .entity → n.identifier = schema.identifier? n.target)
    (scope : n.scope = t.current)
    (hidden : ∀ i s, g.HasChildAt a.owner a.property i → g.scope? i = some s →
      t.encloses s t.current = false) : g'.Traced schema t' (as ++ [a]) := by
  have hext := append.extends
  have hnew : ∀ {i m}, g.size ≤ i → g'.node? i = some m → i = g.size ∧ m = n := by
    intro i m hi hm
    exact (append.cases hm).resolve_right fun hold => absurd hold.1 (Nat.not_lt.2 hi)
  have hchild : g'.HasChildAt a.owner a.property a.reached :=
    ⟨n, by rw [reached, append.node?_size], parent, segment⟩
  refine h.grow ho hext ht (by simpa using hchild) ?_ ?_ ?_
  · intro i p hi hp
    obtain ⟨m, hm, hpm⟩ := parent?_eq_some_iff.1 hp
    obtain ⟨rfl, rfl⟩ := hnew hi hm
    exact ⟨a, by simp, Option.some.inj (parent.symm.trans hpm), reached⟩
  · intro i m p hi hm _ hk
    obtain ⟨rfl, rfl⟩ := hnew hi hm
    exact identifier hk
  · intro p x i j s s' hi hj hlt hjsize hs hs'
    obtain ⟨m, hm, hp, hx⟩ := hj
    obtain ⟨rfl, rfl⟩ := hnew hjsize hm
    obtain rfl : t.current = s' := by simpa [scope?, hm, scope] using hs'
    rw [append.scope?_of_lt hlt] at hs
    rw [ht.encloses_eq t.current_lt]
    have hi := (hext.hasChildAt_iff hlt).1 hi
    rw [← hx, ← Option.some.inj (parent.symm.trans hp), segment] at hi
    exact hidden i s hi hs

/-- The children are traced after each event. -/
theorem reaches {a : Option Access} (h : g.Traced schema t as) (hr : g.Reaches schema t a g')
    (ho : Owned g t) (hext : g.Extends g') (ht : t.Extends t') :
    g'.Traced schema t' (as ++ a.toList) := by
  cases hr with
  | still old => simpa using h.still ho hext ht old
  | found child => exact h.found ho ht child
  | made append reached parent segment identifier scope hidden =>
    exact h.made ho ht append reached parent segment identifier scope hidden

/-! ## Foreign keys -/

section

variable {n : Node} (h : g.Traced schema t as)

include h

theorem mem_children_iff {c : Nat} :
    c ∈ g.children i ↔ ∃ a ∈ as, a.owner = i ∧ a.reached = c := by
  rw [mem_children]
  refine ⟨h.reached, ?_⟩
  rintro ⟨a, ha, rfl, rfl⟩
  exact (h.child a ha).parent?

/-- A node has one child if it was accessed and all accesses have reached the same node. -/
theorem children_eq_singleton_iff {a : Access} (ha : a ∈ as) (hai : a.owner = i) :
    g.children i = [a.reached] ↔ ∀ b ∈ as, b.owner = i → b.reached = a.reached := by
  constructor
  · intro hone b hb hbi
    have hmem := h.mem_children_iff.2 ⟨b, hb, hbi, rfl⟩
    rwa [hone, List.mem_singleton] at hmem
  · intro hall
    have hsorted : (g.children i).Pairwise (· < ·) :=
      List.pairwise_lt_range.sublist (children_sublist_range g i)
    apply hsorted.eq_of_mem_iff (List.pairwise_singleton _ _)
    intro c
    rw [h.mem_children_iff, List.mem_singleton]
    constructor
    · rintro ⟨b, hb, hbi, rfl⟩
      exact hall b hb hbi
    · rintro rfl
      exact ⟨a, ha, hai, rfl⟩

/-- A node is a foreign key if all accesses were to the identifier and have reached the same
node. -/
theorem isForeignKey_iff {a : Access} (ha : a ∈ as) (hai : a.owner = i) :
    g.isForeignKey i n = true ↔ (∀ b ∈ as, b.owner = i → some b.property = n.identifier) ∧
      ∀ b ∈ as, b.owner = i → b.reached = a.reached := by
  have hkey : ∀ b ∈ as, g.isIdentifierOf n b.reached = true ↔ some b.property = n.identifier :=
    fun b hb => isIdentifierOf_iff (h.child b hb)
  rw [isForeignKey_iff_children]
  constructor
  · rintro ⟨c, hone, hid⟩
    obtain rfl : a.reached = c := by
      have hmem := h.mem_children_iff.2 ⟨a, ha, hai, rfl⟩
      rwa [hone, List.mem_singleton] at hmem
    have hall := (h.children_eq_singleton_iff ha hai).1 hone
    exact ⟨fun b hb hbi => (hkey b hb).1 ((hall b hb hbi).symm ▸ hid), hall⟩
  · rintro ⟨hid, hall⟩
    exact ⟨a.reached, (h.children_eq_singleton_iff ha hai).2 hall, (hkey a ha).2 (hid a ha hai)⟩

end

end Traced

end Graph

namespace Stage

variable {s : Stage} {as : List Access}

/-- The children are traced by the accesses of a run. -/
theorem Reachable.traced_run (h : s.Reachable)
    (ht : s.query.graph.Traced s.query.schema s.query.scopes as) (es : List Event) :
    (s.run es).query.graph.Traced (s.run es).query.schema (s.run es).query.scopes
      (as ++ s.accesses es) := by
  induction es generalizing s as with
  | nil => simpa [accesses] using ht
  | cons e es ih =>
    have hkept := (h.sound.step e.within_any).kept.query
    have hnext := ht.reaches (s.reaches_step e) h.sound.query.owned hkept.graph hkept.scopes
    rw [← hkept.schema] at hnext
    rw [run_cons, accesses, ← List.append_assoc]
    exact ih (h.run [e]) hnext

/-! ## Joins -/

/-- What the accesses of a run make of the entities without a join type of their own. -/
structure JoinsByAccess (s : Stage) (as : List Access) : Prop where
  /-- An entity is joined if another property than its identifier was accessed. -/
  inner : ∀ i n, s.query.graph.node? i = some n → n.kind = .entity → n.join = none →
    (∃ a ∈ as, a.owner = i ∧ some a.property ≠ s.query.schema.identifier? n.target) →
    s.query.graph.joinType i = .inner
  /-- An entity that was accessed is not joined exactly if all accesses were to its identifier and
  have reached the same node. -/
  none_iff : ∀ i n, s.query.graph.node? i = some n → n.kind = .entity → n.join = none →
    (∃ a ∈ as, a.owner = i) → (s.query.graph.joinType i = .none ↔
      (∀ a ∈ as, a.owner = i → some a.property = s.query.schema.identifier? n.target) ∧
        ∀ a ∈ as, ∀ b ∈ as, a.owner = i → b.owner = i → a.reached = b.reached)
  /-- Two accesses of one property reach different nodes only if the scope of the second one does
  not see what the first one has reached: that was made in a sub-query. -/
  apart : ∀ a ∈ as, ∀ b ∈ as, a.owner = b.owner → a.property = b.property →
    a.reached < b.reached → ∀ s₁ s₂, s.query.graph.scope? a.reached = some s₁ →
      s.query.graph.scope? b.reached = some s₂ → s.query.scopes.encloses s₁ s₂ = false

theorem joinsByAccess_of_traced (ho : Owned s.query.graph s.query.scopes)
    (ht : s.query.graph.Traced s.query.schema s.query.scopes as) : s.JoinsByAccess as := by
  -- An entity is no root, so it knows its identifier.
  have hid : ∀ {i n}, s.query.graph.node? i = some n → n.kind = .entity →
      n.identifier = s.query.schema.identifier? n.target := by
    intro i n hn hk
    obtain ⟨p, hp⟩ := Option.ne_none_iff_exists'.1 fun hp : n.parent = none => by
      rw [(ho.root_iff hn).2 hp] at hk
      cases hk
    exact ht.identifier hn hp hk
  refine ⟨?_, ?_, ?_⟩
  · rintro i n hn hk hj ⟨a, ha, hai, hother⟩
    rw [Graph.joinType_of_entity hn hk hj, if_neg]
    rw [ht.isForeignKey_iff ha hai, hid hn hk]
    exact fun hkey => hother (hkey.1 a ha hai)
  · rintro i n hn hk hj ⟨a, ha, hai⟩
    rw [Graph.joinType_eq_none_iff hn hk hj, ht.isForeignKey_iff ha hai, hid hn hk,
      and_congr_right_iff]
    intro _
    constructor
    · exact fun hall b hb c hc hbi hci => (hall b hb hbi).trans (hall c hc hci).symm
    · exact fun hall b hb hbi => hall b hb a ha hbi hai
  · intro a ha b hb howner hproperty hlt s₁ s₂ hs₁ hs₂
    have hchild := ht.child a ha
    rw [howner, hproperty] at hchild
    exact ht.apart hchild (ht.child b hb) hlt hs₁ hs₂

/-- **Accesses decide on joins.** -/
theorem run_joinsByAccess (schema : Registry) (settings : Settings) (es : List Event) :
    ((start schema settings).run es).JoinsByAccess ((start schema settings).accesses es) := by
  have hstart : (start schema settings).Reachable := reachable_start schema settings []
  have htraced := hstart.traced_run (Graph.traced_empty schema _) es
  exact joinsByAccess_of_traced (hstart.run es).sound.query.owned htraced

/-- A sub-query reads the identifier of an outer entity, and then the query around it does too. -/
def keyTwice : List Event :=
  [.call (.addFrom "Person"), .call (.access ⟨0, .root⟩ "town"), .enterSub, .call (.addFrom "Car"),
    .call (.access ⟨1, .entity⟩ "id"), .call (.select ⟨3, .property⟩), .leaveSub true,
    .call (.access ⟨1, .entity⟩ "id"), .call (.select ⟨4, .property⟩)]

/-- All that was accessed of the town is its identifier, and the town is joined all the same. -/
theorem sub_reaches_key_first :
    let s := (start Sample.registry .default).run keyTwice
    let as := (start Sample.registry .default).accesses keyTwice
    s.query.graph.kind? 1 = some .entity ∧ (s.query.graph.node? 1).bind (·.join) = none ∧
      (∃ a ∈ as, a.owner = 1) ∧ (∀ a ∈ as, a.owner = 1 →
        some a.property = s.query.schema.identifier? (s.query.graph.target 1)) ∧
      s.query.graph.joinType 1 = .inner ∧ s.query.compile.map (·.text) =
        .ok "select hobj2.id from Person hobj1 join hobj1.town hobj2" := by
  decide +kernel

/-- In the other order the sub-query finds what the query around it has made. -/
example :
    let s := (start Sample.registry .default).run
      [.call (.addFrom "Person"), .call (.access ⟨0, .root⟩ "town"),
        .call (.access ⟨1, .entity⟩ "id"), .call (.select ⟨2, .property⟩), .enterSub,
        .call (.addFrom "Car"), .call (.access ⟨1, .entity⟩ "id"), .call (.select ⟨2, .property⟩),
        .leaveSub true]
    s.query.graph.joinType 1 = .none ∧ s.query.compile.map (·.text) =
      .ok "select hobj1.town.id from Person hobj1" := by
  decide +kernel

end Stage

end PathQuery
