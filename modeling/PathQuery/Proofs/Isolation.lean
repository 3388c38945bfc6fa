import PathQuery.Proofs.Reachable
import PathQuery.Proofs.Reference
import PathQuery.Schema.Sample

/-!
# What a sub-query does to the queries around it

All that the body of a sub-query makes belongs to a scope that was opened with the sub-query or
after it. The body sets no join type of a node that was there before, and it declares nothing in
a scope around (`Graph.SameBelow`).

It may still make children under nodes that were there before. An entity without a join type of
its own is joined unless its identifier is its only child, and children of all scopes are counted.
So a sub-query *disturbs* such an entity when it gives a first other child to one that has its
identifier only, or the identifier to one that has no child yet (`sub_moves_reference`). It
disturbs nothing else.

Main statement: `Reachable.keepsOuter`.
-/

namespace PathQuery

open Relation

/-! ## Nodes of outer scopes -/

namespace Graph

/-- Whether two graphs have the same nodes of certain scopes. -/
def SameIn (p : Nat → Prop) (g g' : Graph) : Prop :=
  ∀ i n, p n.scope → (g'.node? i = some n ↔ g.node? i = some n)

/-- Whether two graphs have the same nodes of the scopes below a number. -/
def SameBelow (k : Nat) (g g' : Graph) : Prop :=
  ∀ i n, n.scope < k → (g'.node? i = some n ↔ g.node? i = some n)

variable {p : Nat → Prop} {k i : Nat} {g g' g'' : Graph} {n : Node}

namespace SameBelow

theorem refl (k : Nat) (g : Graph) : SameBelow k g g := fun _ _ _ => Iff.rfl

theorem trans (h : SameBelow k g g') (h' : SameBelow k g' g'') : SameBelow k g g'' :=
  fun i n hn => (h' i n hn).trans (h i n hn)

end SameBelow

/-- A new node of another scope is none of the nodes inside. -/
theorem AppendsTo.sameIn (h : g.AppendsTo g' n) (hn : ¬ p n.scope) : SameIn p g g' := by
  intro i m hm
  constructor
  · intro hi
    rcases h.cases hi with ⟨-, rfl⟩ | ⟨-, hi⟩
    · exact absurd hm hn
    · exact hi
  · intro hi
    rw [h.node?_of_lt (lt_size_of_node? hi)]
    exact hi

theorem AppendsTo.sameBelow (h : g.AppendsTo g' n) (hk : k ≤ n.scope) : SameBelow k g g' :=
  h.sameIn (p := (· < k)) (Nat.not_lt.2 hk)

/-- Setting the join type of a node of another scope leaves the nodes inside as they are. -/
theorem sameIn_setJoin {node s : Nat} (hs : g.scope? node = some s) (hk : ¬ p s)
    (type : Join) : SameIn p g (g.setJoin node type) := by
  intro i m hm
  rw [node?_setJoin]
  by_cases hi : node = i
  · subst hi
    obtain ⟨n, hn, rfl⟩ := scope?_eq_some_iff.1 hs
    have hold : g.node? node ≠ some m := by
      rw [hn]
      rintro ⟨⟩
      exact hk hm
    have hnew : (g.node? node).map (fun n => { n with join := some type }) ≠ some m := by
      rw [hn]
      rintro ⟨⟩
      exact hk hm
    simp only [if_true]
    exact iff_of_false hnew hold
  · simp [hi]

theorem sameBelow_setJoin {node s : Nat} (hs : g.scope? node = some s) (hk : k ≤ s)
    (type : Join) : SameBelow k g (g.setJoin node type) :=
  sameIn_setJoin (p := (· < k)) hs (Nat.not_lt.2 hk) type

end Graph

/-! ## Changes and events -/

/-- Every sub-query whose body is running encloses the current scope. -/
theorem Nested.encloses_of_mem {h : Nat → Handles} {g : Graph} {t : Scopes} {s k : Nat}
    {fs : List Frame} {groups : List (List Condition)} {suspended : List (List (List Condition))}
    (hn : Nested h g t s fs groups suspended) (hk : .sub k ∈ fs) : t.encloses k s = true := by
  induction hn with
  | outermost => cases hk
  | group junction fits rest ih => exact ih ((List.mem_cons.1 hk).resolve_left nofun)
  | comparison guard op fits rest ih => exact ih ((List.mem_cons.1 hk).resolve_left nofun)
  | @sub s p fs groups suspended outer rest ih =>
    rcases List.mem_cons.1 hk with heq | hk
    · cases heq
      exact Scopes.encloses_self t k
    · exact Scopes.encloses_iff_outer.2 (Or.inr ⟨p, outer, ih hk⟩)

namespace Query

variable {h : Handles} {q q' : Query} {k : Nat}

theorem Change.sameBelow (hc : Change h q q') (hk : k ≤ q.current) :
    Graph.SameBelow k q.graph q'.graph := by
  cases hc with
  | pending | bind => exact .refl k q.graph
  | root type known =>
    exact (Graph.appendsTo_addRoot q.graph type q.aliases.next q.current).sameBelow hk
  | child owner property r seen kind new resolved =>
    exact (appendsTo_withChild seen property (childSpec q.schema r)).sameBelow hk
  | join node type own root property => exact Graph.sameBelow_setJoin own hk type
  | add a fits =>
    rcases q.add_eq a with heq | ⟨_, _, _, -, -, heq⟩
    · rw [heq]; exact .refl k q.graph
    · rw [heq]; exact .refl k q.graph

end Query

namespace Stage

variable {h : Nat → Handles} {s : Stage} {k : Nat}

/-- An event leaves the nodes of the scopes below the current one as they are. -/
theorem Sound.sameBelow_step (hs : s.Sound h) {e : Event} (he : e.Within (h s.query.current))
    (hk : k ≤ s.query.current) : Graph.SameBelow k s.query.graph (s.step e).query.graph :=
  hs.step_relates (R := fun q q' => Graph.SameBelow k q.graph q'.graph) he
    (fun q => .refl k q.graph) (fun h₁ h₂ => h₁.trans h₂)
    (fun hcur hc => hc.sameBelow (hcur ▸ hk)) (fun _ => .refl k _) (fun _ => .refl k _)
    fun _ _ _ => .refl k _

/-! ## Bodies -/

/-- Whether the bodies that are running at some moment go on running throughout a run. -/
def StaysIn (base : List Frame) : Stage → List Event → Prop
  | s, [] => base <:+ s.frames
  | s, e :: es => base <:+ s.frames ∧ StaysIn base (s.step e) es

/-- Whether a list of events is the body of a sub-query that is opened at a stage: the sub-query is
not closed by it, and nothing that it opens is left open. -/
structure SubBody (s : Stage) (es : List Event) : Prop where
  inside : (s.step .enterSub).StaysIn (s.step .enterSub).frames es
  closed : ((s.step .enterSub).run es).frames = (s.step .enterSub).frames

/-- The stage after a sub-query with a body, which succeeds or fails. -/
def afterSub (s : Stage) (es : List Event) (succeeded : Bool) : Stage :=
  ((s.step .enterSub).run es).step (.leaveSub succeeded)

theorem afterSub_eq (s : Stage) (es : List Event) (succeeded : Bool) :
    s.afterSub es succeeded = s.run (.enterSub :: es ++ [.leaveSub succeeded]) := by
  rw [List.cons_append, run_cons, run_append]
  rfl

/-- While the body of a sub-query is running, the current scope is not below that of it. -/
theorem Sound.le_current (hs : s.Sound h) (hk : .sub k ∈ s.frames) : k ≤ s.query.current :=
  Scopes.le_of_encloses (hs.nested.encloses_of_mem hk)

/-- A run inside the body of a sub-query leaves the nodes of the scopes below as they are. -/
theorem Sound.sameBelow_run (hs : s.Sound fun _ => .any) {base : List Frame} {es : List Event}
    (hk : .sub k ∈ base) (hin : s.StaysIn base es) :
    Graph.SameBelow k s.query.graph (s.run es).query.graph := by
  induction es generalizing s with
  | nil => exact .refl k _
  | cons e es ih =>
    have hcur := hs.le_current (hin.1.subset hk)
    have hstep := hs.sameBelow_step e.within_any hcur
    exact hstep.trans (ih (hs.step e.within_any).sound hin.2)

theorem Sound.sameBelow_sub (hs : s.Sound fun _ => .any) {es : List Event} (hb : s.SubBody es)
    (succeeded : Bool) :
    Graph.SameBelow s.query.scopes.size s.query.graph (s.afterSub es succeeded).query.graph := by
  have henter := (hs.step (Event.within_any .enterSub)).sound
  have hmem : .sub s.query.scopes.size ∈ (s.step .enterSub).frames := List.mem_cons_self
  have hrun := henter.sameBelow_run hmem hb.inside
  have hend := (henter.run es).sound
  have hcur := hend.le_current (hb.closed ▸ hmem)
  exact hrun.trans (hend.sameBelow_step (Event.within_any _) hcur)

end Stage

/-! ## What depends on the children of a node -/

namespace Graph

/-- Whether a node is the identifier of the type that another one stands for. -/
def isIdentifierOf (g : Graph) (n : Node) (c : Nat) : Bool :=
  n.identifier.isSome && (g.node? c).map (·.segment) == n.identifier

theorem isForeignKey_eq (g : Graph) (i : Nat) (n : Node) : g.isForeignKey i n =
    match g.children i with
    | [c] => g.isIdentifierOf n c
    | _ => false := rfl

theorem isForeignKey_iff_children {g : Graph} {i : Nat} {n : Node} : g.isForeignKey i n = true ↔
    ∃ c, g.children i = [c] ∧ g.isIdentifierOf n c = true := by
  rw [isForeignKey_eq]
  split
  · next c hc => simp [hc]
  · next hne =>
    apply iff_of_false nofun
    rintro ⟨c, hc, -⟩
    exact hne c hc

/-- Whether a graph has children under a node of another one that decide anew whether the node is
joined: an entity without a join type of its own had its identifier as the only child and has
others too, or it had no child and has its identifier only. -/
def Disturbs (g g' : Graph) (i : Nat) : Prop :=
  ∃ n, g.node? i = some n ∧ n.kind = .entity ∧ n.join = none ∧
    ((∃ c, g.children i = [c] ∧ g.isIdentifierOf n c = true ∧ g'.children i ≠ [c]) ∨
      (g.children i = [] ∧ ∃ c, g'.children i = [c] ∧ g'.isIdentifierOf n c = true))

/-- An entity without a join type of its own is joined unless it is a foreign key. -/
theorem joinType_of_entity {g : Graph} {i : Nat} {n : Node} (hn : g.node? i = some n)
    (hk : n.kind = .entity) (hj : n.join = none) :
    g.joinType i = if g.isForeignKey i n then .none else .inner := by
  simp only [joinType, hn, hk, hj, Option.getD_none]

/-- An entity without a join type of its own is not joined exactly if it is a foreign key. -/
theorem joinType_eq_none_iff {g : Graph} {i : Nat} {n : Node} (hn : g.node? i = some n)
    (hk : n.kind = .entity) (hj : n.join = none) :
    g.joinType i = .none ↔ g.isForeignKey i n = true := by
  rw [joinType_of_entity hn hk hj]
  cases g.isForeignKey i n <;> simp

/-- A node is written as it was if the nodes on its path own the aliases that they owned. -/
theorem Extends.reference_eq {g g' : Graph} (h : g.Extends g') {i : Nat} (hi : i < g.size)
    (howns : ∀ a ∈ g.lineage i, g'.ownsAlias a = g.ownsAlias a) :
    g'.reference i = g.reference i := by
  have halong : ∀ l : List Nat, (∀ a ∈ l, a < g.size ∧ g'.ownsAlias a = g.ownsAlias a) →
      g'.referenceAlong l = g.referenceAlong l := by
    intro l hl
    induction l with
    | nil => rfl
    | cons a above ih =>
      obtain ⟨⟨ha, hsame⟩, habove⟩ := List.forall_mem_cons.1 hl
      obtain ⟨n, hn⟩ := exists_node?_of_lt ha
      obtain ⟨j, hj, -⟩ := h.node hn
      have halias : g'.alias? a = g.alias? a := by rw [alias?, alias?, hsame, hj, hn]; rfl
      have hsegment : g'.segment a = g.segment a := by rw [segment, segment, hj, hn]; rfl
      rw [referenceAlong, referenceAlong, halias, hsegment, ih habove]
  rw [reference, reference, h.lineage_eq hi]
  refine halong _ fun a ha => ⟨?_, howns a ha⟩
  exact Nat.lt_of_le_of_lt (g.ancestry.le_of_mem_chain ha) hi

/-- Whether the nodes of a graph are those of another one, unchanged, with new ones after them. -/
def Continues (g g' : Graph) : Prop := ∀ i, i < g.size → g'.node? i = g.node? i

namespace Continues

variable {g g' : Graph} {i : Nat} (h : g.Continues g')

include h

theorem toExtends : g.Extends g' := by
  refine ⟨fun {i n} hn => ⟨n.join, ?_, id⟩⟩
  rw [h i (lt_size_of_node? hn), hn]

/-- New children come after those there were. -/
theorem exists_children (i : Nat) : ∃ new, g'.children i = g.children i ++ new := by
  obtain ⟨k, hk⟩ := Nat.exists_eq_add_of_le h.toExtends.size_le
  have hold : (List.range g.size).filter (fun j => g'.parent? j == some i) = g.children i := by
    rw [children_eq]
    refine List.filter_congr fun j hj => ?_
    rw [h.toExtends.parent?_eq (List.mem_range.1 hj)]
  rw [children_eq, hk, List.range_add, List.filter_append, hold]
  exact ⟨_, rfl⟩

theorem isIdentifierOf_eq {n : Node} {c : Nat} (hc : c ∈ g.children i) :
    g'.isIdentifierOf n c = g.isIdentifierOf n c := by
  rw [isIdentifierOf, isIdentifierOf, h c (lt_size_of_parent? (mem_children.1 hc))]

theorem isForeignKey_ne_iff {n : Node} : g'.isForeignKey i n ≠ g.isForeignKey i n ↔
    (∃ c, g.children i = [c] ∧ g.isIdentifierOf n c = true ∧ g'.children i ≠ [c]) ∨
      (g.children i = [] ∧ ∃ c, g'.children i = [c] ∧ g'.isIdentifierOf n c = true) := by
  obtain ⟨new, hnew⟩ := h.exists_children i
  have hid : ∀ c ∈ g.children i, g'.isIdentifierOf n c = g.isIdentifierOf n c :=
    fun c hc => h.isIdentifierOf_eq hc
  rw [isForeignKey_eq, isForeignKey_eq, hnew]
  rcases hc : g.children i with _ | ⟨c, _ | ⟨d, rest⟩⟩
  · rcases new with _ | ⟨c, _ | ⟨d, rest⟩⟩ <;> simp
  · rw [hc] at hid
    have hid := hid c List.mem_cons_self
    rcases new with _ | ⟨d, rest⟩
    · simp [hid]
    · simp
  · simp

/-- A join type changes exactly if the node is disturbed. -/
theorem joinType_ne_iff (hi : i < g.size) : g'.joinType i ≠ g.joinType i ↔ g.Disturbs g' i := by
  obtain ⟨n, hn⟩ := exists_node?_of_lt hi
  have hn' : g'.node? i = some n := (h i hi).trans hn
  by_cases he : n.kind = .entity ∧ n.join = none
  · obtain ⟨hk, hj⟩ := he
    have hkey : g'.joinType i ≠ g.joinType i ↔ g'.isForeignKey i n ≠ g.isForeignKey i n := by
      rw [joinType_of_entity hn hk hj, joinType_of_entity hn' hk hj]
      cases g.isForeignKey i n <;> cases g'.isForeignKey i n <;> simp
    rw [hkey, h.isForeignKey_ne_iff, Disturbs]
    simp [hn, hk, hj]
  · have hsame : g'.joinType i = g.joinType i := by
      rw [joinType, joinType, hn, hn']
      cases hk : n.kind with
      | entity =>
        obtain ⟨type, htype⟩ := Option.ne_none_iff_exists'.1 fun hj => he ⟨hk, hj⟩
        simp [hk, htype]
      | _ => simp [hk]
    refine iff_of_false (not_not.2 hsame) ?_
    rintro ⟨m, hm, hk, hj, -⟩
    rw [hn] at hm
    cases hm
    exact he ⟨hk, hj⟩

/-- So does the ownership of an alias. -/
theorem ownsAlias_ne_iff (hi : i < g.size) : g'.ownsAlias i ≠ g.ownsAlias i ↔ g.Disturbs g' i := by
  have hkind := h.toExtends.kind?_eq hi
  constructor
  · intro hne
    rw [← h.joinType_ne_iff hi]
    intro hsame
    rw [ownsAlias, ownsAlias, hkind, hsame] at hne
    exact hne rfl
  · intro hd
    have hne := (h.joinType_ne_iff hi).2 hd
    obtain ⟨n, hn, hk, hj, -⟩ := hd
    have hn' : g'.node? i = some n := (h i hi).trans hn
    have hk' : g.kind? i = some .entity := by rw [kind?, hn, Option.map_some, hk]
    rw [joinType_of_entity hn hk hj, joinType_of_entity hn' hk hj] at hne
    rw [ownsAlias, ownsAlias, hkind, hk', joinType_of_entity hn hk hj, joinType_of_entity hn' hk hj]
    cases hf : g.isForeignKey i n <;> cases hf' : g'.isForeignKey i n <;> simp [hf, hf'] at hne ⊢

/-- A node with nothing disturbed on its path is written as it was. -/
theorem reference_eq (hi : i < g.size) (hd : ∀ a ∈ g.lineage i, ¬ g.Disturbs g' a) :
    g'.reference i = g.reference i := by
  refine h.toExtends.reference_eq hi fun a ha => not_not.1 fun hne => hd a ha ?_
  have hlt := Nat.lt_of_le_of_lt (g.ancestry.le_of_mem_chain ha) hi
  exact (h.ownsAlias_ne_iff hlt).1 hne

end Continues

/-- Nodes that belong to scopes below a number are not changed by what happens above. -/
theorem SameBelow.continues {k : Nat} {g g' : Graph} (h : SameBelow k g g')
    (hk : ∀ {i s}, g.scope? i = some s → s < k) : g.Continues g' := by
  intro i hi
  obtain ⟨n, hn⟩ := exists_node?_of_lt hi
  rw [hn]
  exact (h i n (hk (scope?_eq_some_iff.2 ⟨n, hn, rfl⟩))).2 hn

end Graph

/-- A scope declares what it declared, in the same order, if no node of it is new. -/
theorem Owned.declarationOrder_eq_of_sameBelow {k s : Nat} {g g' : Graph} {t t' : Scopes}
    (ho : Owned g t) (ho' : Owned g' t') (h : Graph.SameBelow k g g') (hext : g.Extends g')
    (hs : s < k) : t'.declarationOrder g' s = t.declarationOrder g s := by
  rw [← ho.declarationOrder_filter ho' hext s, eq_comm, List.filter_eq_self]
  intro i hi
  obtain ⟨n, hn, -, rfl⟩ := ((ho'.declarationOrder_lists s).mem_iff i).1 hi
  simpa using Graph.lt_size_of_node? ((h i n hs).1 hn)

/-! ## Sub-queries -/

/-- What a query keeps of another one that a sub-query was built in. -/
structure Query.KeepsOuter (q q' : Query) : Prop where
  /-- No node there was is changed; in particular none has another join type set. -/
  nodes : q.graph.Continues q'.graph
  /-- The scopes there were own the same entities, in the same order. -/
  order : ∀ s < q.scopes.size,
    q'.scopes.declarationOrder q'.graph s = q.scopes.declarationOrder q.graph s
  /-- The join type of a node is another one only if the node is disturbed. -/
  joins : ∀ i < q.graph.size,
    q'.graph.joinType i ≠ q.graph.joinType i ↔ q.graph.Disturbs q'.graph i
  /-- A node gains or loses its alias only if it is disturbed. -/
  owners : ∀ i < q.graph.size,
    q'.graph.ownsAlias i ≠ q.graph.ownsAlias i ↔ q.graph.Disturbs q'.graph i
  /-- A node is written as it was unless one on its path is disturbed. -/
  references : ∀ i < q.graph.size, (∀ a ∈ q.graph.lineage i, ¬ q.graph.Disturbs q'.graph a) →
    q'.graph.reference i = q.graph.reference i

namespace Stage

/-- **What a sub-query does to the queries around it.** -/
theorem Reachable.keepsOuter {s : Stage} (h : s.Reachable) {es : List Event} (hb : s.SubBody es)
    (succeeded : Bool) : s.query.KeepsOuter (s.afterSub es succeeded).query := by
  have hs := h.sound
  have hsame := hs.sameBelow_sub hb succeeded
  have hcont := hsame.continues hs.query.owned.scope_lt
  have hs' := (hs.run (.enterSub :: es ++ [.leaveSub succeeded])).sound
  rw [← afterSub_eq] at hs'
  exact ⟨hcont,
    fun _ hlt => hs.query.owned.declarationOrder_eq_of_sameBelow hs'.query.owned hsame
      hcont.toExtends hlt,
    fun _ hi => hcont.joinType_ne_iff hi, fun _ hi => hcont.ownsAlias_ne_iff hi,
    fun _ hi hd => hcont.reference_eq hi hd⟩

/-- A query in which a town is written by its foreign key. -/
def sampleKey : Stage :=
  (start Sample.registry .default).run
    [.call (.addFrom "Person"), .call (.access ⟨0, .root⟩ "town"),
      .call (.access ⟨1, .entity⟩ "id"), .call (.select ⟨2, .property⟩)]

/-- A sub-query that reaches cars from the outer root. -/
theorem sampleKey_keepsOuter : sampleKey.Reachable ∧
    sampleKey.SubBody [.call (.addFrom "Car"), .call (.access ⟨0, .root⟩ "cars"), .call .drain] ∧
    sampleKey.query.KeepsOuter (sampleKey.afterSub
      [.call (.addFrom "Car"), .call (.access ⟨0, .root⟩ "cars"), .call .drain] true).query := by
  have hb : sampleKey.SubBody
      [.call (.addFrom "Car"), .call (.access ⟨0, .root⟩ "cars"), .call .drain] :=
    ⟨⟨List.suffix_rfl, List.suffix_rfl, List.suffix_rfl, List.suffix_rfl⟩, rfl⟩
  exact ⟨reachable_start _ _ _, hb, Reachable.keepsOuter (reachable_start _ _ _) hb true⟩

/-- A sub-query that only reads the name of the town makes the town join, also when it fails. -/
theorem sub_moves_reference : ∃ (s : Stage) (es : List Event), s.Reachable ∧ s.SubBody es ∧
    s.query.compile.map (·.text) = .ok "select hobj1.town.id from Person hobj1" ∧
    (s.afterSub es false).query.compile.map (·.text) =
      .ok "select hobj2.id from Person hobj1 join hobj1.town hobj2" ∧
    s.query.graph.joinType 1 = .none ∧ (s.afterSub es false).query.graph.joinType 1 = .inner ∧
    s.query.graph.reference 2 = "hobj1.town.id" ∧
    (s.afterSub es false).query.graph.reference 2 = "hobj2.id" := by
  refine ⟨sampleKey, [.call (.addFrom "Car"), .call (.access ⟨1, .entity⟩ "name"), .call .drain],
    reachable_start _ _ _,
    ⟨⟨List.suffix_rfl, List.suffix_rfl, List.suffix_rfl, List.suffix_rfl⟩, rfl⟩, ?_⟩
  decide +kernel

end Stage

end PathQuery
