import Mathlib.Data.List.Induction
import PathQuery.Graph.Growth
import PathQuery.Proofs.Canonical

/-!
# Walking down a growing graph

**The walk.** The nodes that are still to be visited are kept on a stack. The top one is visited,
and its children take its place, the first one on top (`Visits`). The walk has no bound of its own.
It ends because every node is visited once, and it visits a node and then the trees under the
children of the node one after the other, in the order in which they were made.

**Growth.** A graph is built from roots, from children, which are made when they are reached for the
first time, and from join types (`Alteration`). A new node stands behind the children of its parent.
So in a walk that visits the parent it comes right behind the tree that was under the parent
(`AppendsTo.exists_preorder_eq`), and a walk that does not visit the parent stays as it was.

Main statement: `grown_walksTree`.
-/

namespace PathQuery.Graph

variable {g g' : Graph} {n : Node} {c i p r : Nat} {stack order order' : List Nat}

/-! ## The walk with a stack -/

/-- Whether a walk visits some nodes, in this order, from the time on when it has a stack of nodes
still to visit. It comes to no node that the graph does not have. -/
inductive Visits (g : Graph) : List Nat → List Nat → Prop
  | done : Visits g [] []
  | visit {i : Nat} {stack order : List Nat} (hi : i < g.size)
    (rest : Visits g (g.children i ++ stack) order) : Visits g (i :: stack) (i :: order)

/-- The walk goes on in one way only. -/
theorem Visits.unique (h : g.Visits stack order) (h' : g.Visits stack order') : order = order' := by
  induction h generalizing order' with
  | done => cases h'; rfl
  | visit _ _ ih =>
    cases h' with
    | visit _ hrest => rw [ih hrest]

/-- The walk ends when it has visited the trees under all nodes on the stack. -/
theorem visits_flatMap (h : ∀ i ∈ stack, i < g.size) :
    g.Visits stack (stack.flatMap g.preorder) := by
  generalize hlength : (stack.flatMap g.preorder).length = k
  induction k generalizing stack with
  | zero =>
    cases stack with
    | nil => exact .done
    | cons i rest =>
      rw [flatMap_preorder_cons] at hlength
      exact absurd hlength (Nat.succ_ne_zero _)
  | succ k ih =>
    cases stack with
    | nil => cases hlength
    | cons i rest =>
      rw [List.forall_mem_cons] at h
      rw [flatMap_preorder_cons] at hlength ⊢
      apply Visits.visit h.1
      apply ih _ (Nat.succ.inj hlength)
      intro j hj
      rcases List.mem_append.1 hj with hchild | hrest
      · exact lt_size_of_parent? (mem_children.1 hchild)
      · exact h.2 j hrest

theorem visits_iff (hr : r < g.size) : g.Visits [r] order ↔ order = g.depthFirst r := by
  have hvisits : g.Visits [r] (g.depthFirst r) := by
    have hwalk : g.Visits [r] ([r].flatMap g.preorder) := visits_flatMap (by simpa using hr)
    rwa [List.flatMap_singleton, ← depthFirst_eq hr] at hwalk
  constructor
  · intro h
    exact h.unique hvisits
  · intro h
    rw [h]
    exact hvisits

theorem depthFirst_unfold (hr : r < g.size) :
    g.depthFirst r = r :: (g.children r).flatMap g.depthFirst := by
  rw [depthFirst_eq hr, preorder_eq]
  congr 1
  apply List.flatMap_congr
  intro c hc
  rw [depthFirst_eq (lt_size_of_parent? (mem_children.1 hc))]

/-- The walk visits the nodes from which links to parents lead to its start. -/
theorem mem_depthFirst_iff (hr : r < g.size) : i ∈ g.depthFirst r ↔
    Relation.ReflTransGen (fun j p => g.parent? j = some p) i r := by
  rw [depthFirst_eq hr, mem_preorder]
  exact g.ancestry.mem_chain_iff_reflTransGen

/-! ## A new node -/

/-- Nodes with the same children, down to the leaves, have the same trees. -/
theorem preorder_congr (h : ∀ j ∈ g.preorder i, g'.children j = g.children j) :
    g'.preorder i = g.preorder i := by
  induction i using g.down_induction with
  | step i ih =>
    rw [preorder_eq, preorder_eq, h i (g.self_mem_preorder i)]
    congr 1
    apply List.flatMap_congr
    intro c hc
    have hc := mem_children.1 hc
    exact ih c hc fun j hj => h j (mem_preorder_of_child hc hj)

/-- A new node has no children. -/
theorem AppendsTo.preorder_size (h : g.AppendsTo g' n) : g'.preorder g.size = [g.size] := by
  have hnone : g'.children g.size = [] := by
    apply List.eq_nil_iff_forall_not_mem.2
    intro c hc
    have hc := mem_children.1 hc
    have hlt := lt_size_of_parent? hc
    have hup := parent?_lt hc
    rw [h.size] at hlt
    omega
  rw [preorder_eq, hnone]
  rfl

/-- A tree without the parent of a new node stays as it was. -/
theorem AppendsTo.preorder_eq_of_not_mem (h : g.AppendsTo g' n)
    (hp : ∀ p, n.parent = some p → p ∉ g.preorder i) : g'.preorder i = g.preorder i := by
  apply preorder_congr
  intro j hj
  apply h.children_eq
  intro hparent
  exact hp j hparent hj

/-- The parent of a new node is in the tree under at most one of two children of a node. -/
theorem not_mem_preorder_of_ne {d : Nat} (hc : g.parent? c = some i) (hd : g.parent? d = some i)
    (hne : d ≠ c) (hp : p ∈ g.preorder c) : p ∉ g.preorder d := by
  intro hpd
  exact hne (g.ancestry.eq_of_up_eq (mem_preorder.1 hpd) (mem_preorder.1 hp) hd hc)

/-- The tree under the parent of a new node gets it as its last node. -/
theorem AppendsTo.preorder_parent (h : g.AppendsTo g' n) (hn : n.parent = some p) :
    g'.preorder p = g.preorder p ++ [g.size] := by
  have hchildren : (g.children p).flatMap g'.preorder = (g.children p).flatMap g.preorder := by
    apply List.flatMap_congr
    intro c hc
    apply h.preorder_eq_of_not_mem
    intro q hq hqc
    rw [hn] at hq
    cases hq
    -- A node comes before its children, so it is not in the trees under them.
    have hle := g.ancestry.le_of_mem_chain (mem_preorder.1 hqc)
    have hlt := parent?_lt (mem_children.1 hc)
    omega
  rw [preorder_eq g' p, h.children_append, if_pos hn, List.flatMap_append, hchildren,
    List.flatMap_singleton, h.preorder_size, preorder_eq g p]
  simp

/-- In a tree with its parent a new node comes right behind the tree that was under the parent. -/
theorem AppendsTo.exists_preorder_eq (h : g.AppendsTo g' n) (hn : n.parent = some p)
    (hp : p ∈ g.preorder i) : ∃ before behind,
      g.preorder i = before ++ g.preorder p ++ behind ∧
      g'.preorder i = before ++ g.preorder p ++ g.size :: behind := by
  induction i using g.down_induction with
  | step i ih =>
    by_cases hip : i = p
    · subst hip
      refine ⟨[], [], by simp, ?_⟩
      rw [h.preorder_parent hn]
      simp
    · obtain ⟨c, hc, hpc⟩ := (mem_preorder_cases hp).resolve_left (Ne.symm hip)
      obtain ⟨l₁, l₂, hsplit⟩ := List.append_of_mem (mem_children.2 hc)
      have hnodup := g.nodup_children i
      rw [hsplit, List.nodup_middle, List.nodup_cons] at hnodup
      -- The parent is in the tree under one child, so the trees under the others stay.
      have hothers : ∀ l, l ⊆ l₁ ++ l₂ → l.flatMap g'.preorder = l.flatMap g.preorder := by
        intro l hl
        apply List.flatMap_congr
        intro d hd
        have hmem : d ∈ l₁ ++ c :: l₂ :=
          List.perm_middle.symm.subset (List.mem_cons_of_mem c (hl hd))
        rw [← hsplit] at hmem
        have hne : d ≠ c := fun hdc => hnodup.1 (hdc ▸ hl hd)
        apply h.preorder_eq_of_not_mem
        intro q hq
        rw [hn] at hq
        cases hq
        exact not_mem_preorder_of_ne hc (mem_children.1 hmem) hne hpc
      obtain ⟨before, behind, hold, hnew⟩ := ih c hc hpc
      refine ⟨i :: (l₁.flatMap g.preorder ++ before), behind ++ l₂.flatMap g.preorder, ?_, ?_⟩
      · rw [preorder_eq g i, hsplit, List.flatMap_append, List.flatMap_cons, hold]
        simp
      · rw [preorder_eq g' i, h.children_eq (by simpa [hn] using Ne.symm hip), hsplit,
          List.flatMap_append, List.flatMap_cons, hnew, hothers l₁ (by simp),
          hothers l₂ (by simp)]
        simp

/-! ## Graphs that were built -/

/-- A way in which a graph changes. -/
inductive Alteration
  | root (target name : String) (scope : Nat)
  | child (parent : Nat) (segment : String) (spec : ChildSpec) (scope : Nat)
  | join (i : Nat) (type : Join)

/-- The graph and the supply of aliases after an alteration. A join type that may not be set changes
nothing. -/
def alter : Graph × AliasSupply → Alteration → Graph × AliasSupply
  | (g, aliases), .root target name scope => (g.addRoot target name scope, aliases)
  | (g, aliases), .child parent segment spec scope => (g.reach aliases parent segment spec scope).2
  | (g, aliases), .join i type => ((g.join i type).toOption.getD g, aliases)

/-- The graph that some alterations build from nothing. -/
def grown (aliases : AliasSupply) (as : List Alteration) : Graph :=
  (as.foldl alter (empty, aliases)).1

/-- The node that an alteration makes a child of, unless the child is there. -/
def madeUnder (g : Graph) : Alteration → Option Nat
  | .child parent segment _ scope =>
    if parent < g.size ∧ g.child? parent segment scope = none then some parent else none
  | .root .. | .join .. => none

/-- What an alteration makes of a graph, with the node that gets a child, if one does. -/
inductive Altered (g : Graph) : Option Nat → Graph → Prop
  | child {g' : Graph} {n : Node} {p : Nat} (append : g.AppendsTo g' n) (parent : n.parent = some p)
    (new : g.child? p n.segment n.scope = none) : Altered g (some p) g'
  | root {g' : Graph} {n : Node} (append : g.AppendsTo g' n) (parent : n.parent = none) :
    Altered g none g'
  | join (i : Nat) (type : Join) : Altered g none (g.setJoin i type)
  | same : Altered g none g

theorem altered_alter (g : Graph) (aliases : AliasSupply) (a : Alteration) :
    g.Altered (g.madeUnder a) (alter (g, aliases) a).1 := by
  cases a with
  | root target name scope => exact .root (appendsTo_addRoot g target name scope) rfl
  | child parent segment spec scope =>
    cases hfound : g.child? parent segment scope with
    | some c =>
      simp only [madeUnder, alter, reach_eq_of_child? hfound, hfound, reduceCtorEq, and_false,
        if_false]
      exact .same
    | none =>
      simp only [madeUnder, alter, reach, hfound, and_true]
      by_cases hlt : parent < g.size
      · rw [if_pos hlt]
        exact .child (appendsTo_addChild hlt segment spec _ scope) rfl hfound
      · rw [if_neg hlt, addChild, dif_neg hlt]
        exact .same
  | join i type =>
    show g.Altered none ((g.join i type).toOption.getD g)
    unfold join
    split
    · exact .same
    · exact .same
    · exact .same
    · exact .join i type

theorem altered_grown (aliases : AliasSupply) (as : List Alteration) (a : Alteration) :
    (grown aliases as).Altered ((grown aliases as).madeUnder a) (grown aliases (as ++ [a])) := by
  have hlast : grown aliases (as ++ [a]) =
      (alter (grown aliases as, (as.foldl alter (empty, aliases)).2) a).1 := by
    rw [grown, List.foldl_concat]
    rfl
  rw [hlast]
  exact altered_alter _ _ a

theorem Altered.size_le {m : Option Nat} (h : g.Altered m g') : g.size ≤ g'.size := by
  cases h with
  | child append | root append =>
    rw [append.size]
    omega
  | join => simp
  | same => exact Nat.le_refl _

/-- Whether no node has two children at one segment that one scope created. -/
structure Keyed (g : Graph) : Prop where
  unique : ∀ {owner segment i j}, g.HasChildAt owner segment i → g.HasChildAt owner segment j →
    g.scope? i = g.scope? j → i = j

theorem keyed_empty : Keyed empty := ⟨fun ⟨_, hn, _⟩ => nomatch hn⟩

theorem AppendsTo.hasChildAt_iff {owner : Nat} {segment : String} (h : g.AppendsTo g' n)
    (hi : i < g.size) : g'.HasChildAt owner segment i ↔ g.HasChildAt owner segment i := by
  simp [HasChildAt, h.node?_of_lt hi]

/-- A new node is the only child at its segment that its scope created. -/
theorem Keyed.append (h : g.Keyed) (happ : g.AppendsTo g' n)
    (hnew : ∀ p j, n.parent = some p → g.HasChildAt p n.segment j → g.scope? j ≠ some n.scope) :
    g'.Keyed := by
  have hold : ∀ {owner segment j}, g'.HasChildAt owner segment g.size →
      g'.HasChildAt owner segment j → g'.scope? g.size = g'.scope? j → j = g.size := by
    intro owner segment j hsize hj hscope
    by_contra hne
    obtain ⟨m, hm, hparent, hsegment⟩ := hsize
    rw [happ.node?_size] at hm
    cases hm
    obtain ⟨m, hm, -⟩ := id hj
    rcases happ.cases hm with ⟨heq, -⟩ | ⟨hlt, -⟩
    · exact hne heq
    · rw [happ.scope?_size, happ.scope?_of_lt hlt] at hscope
      exact hnew owner j hparent (hsegment ▸ (happ.hasChildAt_iff hlt).1 hj) hscope.symm
  refine ⟨fun {owner segment i j} hi hj hscope => ?_⟩
  obtain ⟨m, hm, -⟩ := id hi
  obtain ⟨m', hm', -⟩ := id hj
  rcases happ.cases hm with ⟨rfl, -⟩ | ⟨hilt, -⟩
  · exact (hold hi hj hscope).symm
  · rcases happ.cases hm' with ⟨rfl, -⟩ | ⟨hjlt, -⟩
    · exact hold hj hi hscope.symm
    · rw [happ.scope?_of_lt hilt, happ.scope?_of_lt hjlt] at hscope
      exact h.unique ((happ.hasChildAt_iff hilt).1 hi) ((happ.hasChildAt_iff hjlt).1 hj) hscope

theorem Keyed.setJoin (h : g.Keyed) (k : Nat) (type : Join) : (g.setJoin k type).Keyed := by
  have hiff : ∀ {owner segment i}, (g.setJoin k type).HasChildAt owner segment i →
      g.HasChildAt owner segment i := by
    intro owner segment i hi
    have hlt : i < g.size := by simpa using hi.lt_size
    exact ((g.extends_setJoin k type).hasChildAt_iff hlt).1 hi
  refine ⟨fun hi hj hscope => h.unique (hiff hi) (hiff hj) ?_⟩
  rwa [scope?_setJoin] at hscope

theorem Keyed.altered {m : Option Nat} (h : g.Keyed) (ha : g.Altered m g') : g'.Keyed := by
  cases ha with
  | child append parent new =>
    apply h.append append
    intro p j hp hj hscope
    rw [parent] at hp
    cases hp
    -- The child was not found, so no node there is of the scope.
    simpa using not_visible_of_findChild? new hj hscope
  | root append parent =>
    apply h.append append
    intro p j hp
    simp [parent] at hp
  | join i type => exact h.setJoin i type
  | same => exact h

theorem keyed_grown (aliases : AliasSupply) (as : List Alteration) :
    (grown aliases as).Keyed := by
  induction as using List.reverseRecOn with
  | nil => exact keyed_empty
  | append_singleton as a ih => exact ih.altered (altered_grown aliases as a)

/-! ## Walks through an altered graph -/

/-- A child that is made of a node that a walk visits comes right behind the tree under the node. -/
theorem Altered.inserts (h : g.Altered (some p) g') (hr : r < g.size) (hp : p ∈ g.depthFirst r) :
    g'.parent? g.size = some p ∧ ∃ before behind,
      g.depthFirst r = before ++ g.depthFirst p ++ behind ∧
      g'.depthFirst r = before ++ g.depthFirst p ++ g.size :: behind := by
  have hr' : r < g'.size := Nat.lt_of_lt_of_le hr h.size_le
  rw [depthFirst_eq hr] at hp ⊢
  rw [depthFirst_eq hr', depthFirst_eq (lt_size_of_mem_preorder hr hp)]
  cases h with
  | child append parent new =>
    refine ⟨?_, append.exists_preorder_eq parent hp⟩
    rw [parent?, append.node?_size]
    exact parent

/-- Any other alteration leaves a walk as it is. -/
theorem Altered.keeps {m : Option Nat} (h : g.Altered m g') (hr : r < g.size)
    (hm : ∀ p, m = some p → p ∉ g.depthFirst r) : g'.depthFirst r = g.depthFirst r := by
  have hr' : r < g'.size := Nat.lt_of_lt_of_le hr h.size_le
  rw [depthFirst_eq hr] at hm ⊢
  rw [depthFirst_eq hr']
  cases h with
  | child append parent new =>
    apply append.preorder_eq_of_not_mem
    intro p hp
    rw [parent] at hp
    exact hm p hp
  | root append parent =>
    apply append.preorder_eq_of_not_mem
    intro p hp
    simp [parent] at hp
  | join i type => exact preorder_congr fun j _ => g.children_setJoin i type j
  | same => rfl

/-! ## All graphs that are built -/

/-- How a walk from a node of a graph that was built goes, and what becomes of it. -/
structure WalksTree (aliases : AliasSupply) (as : List Alteration) (r : Nat) : Prop where
  /-- The walk ends, and it visits the nodes in one order. -/
  ends : ∀ order, (grown aliases as).Visits [r] order ↔ order = (grown aliases as).depthFirst r
  /-- It visits its start and then the trees under the children of the start. -/
  unfolds : (grown aliases as).depthFirst r =
    r :: ((grown aliases as).children r).flatMap (grown aliases as).depthFirst
  /-- The children stand in the order in which they were made, one for each segment and scope. -/
  sorted : ((grown aliases as).children r).Pairwise (· < ·)
  keyed : (grown aliases as).Keyed
  /-- It visits the nodes from which links to parents lead to its start, each of them once. -/
  mem_iff : ∀ i, i ∈ (grown aliases as).depthFirst r ↔
    Relation.ReflTransGen (fun j p => (grown aliases as).parent? j = some p) i r
  nodup : ((grown aliases as).depthFirst r).Nodup
  /-- A child that is made of a node that it visits comes right behind the tree under the node. -/
  inserts : ∀ a p, (grown aliases as).madeUnder a = some p →
    p ∈ (grown aliases as).depthFirst r →
      (grown aliases (as ++ [a])).parent? (grown aliases as).size = some p ∧
      ∃ before behind, (grown aliases as).depthFirst r =
          before ++ (grown aliases as).depthFirst p ++ behind ∧
        (grown aliases (as ++ [a])).depthFirst r =
          before ++ (grown aliases as).depthFirst p ++ (grown aliases as).size :: behind
  /-- Any other alteration leaves the walk as it is. -/
  keeps : ∀ a, (∀ p, (grown aliases as).madeUnder a = some p →
      p ∉ (grown aliases as).depthFirst r) →
    (grown aliases (as ++ [a])).depthFirst r = (grown aliases as).depthFirst r

variable {aliases : AliasSupply} {as : List Alteration}

/-- **The walk is the preorder of the tree**, however the graph was built. -/
theorem grown_walksTree (hr : r < (grown aliases as).size) : WalksTree aliases as r where
  ends _ := visits_iff hr
  unfolds := depthFirst_unfold hr
  sorted := List.pairwise_lt_range.sublist (children_sublist_range _ r)
  keyed := keyed_grown aliases as
  mem_iff _ := mem_depthFirst_iff hr
  nodup := by
    rw [depthFirst_eq hr]
    exact nodup_preorder _ r
  inserts a p hmade := by
    have haltered := altered_grown aliases as a
    rw [hmade] at haltered
    exact haltered.inserts hr
  keeps a := (altered_grown aliases as a).keeps hr

/-- A person with a town, a car and the name of the town, made in this order. -/
def sampleAlterations : List Alteration :=
  [.root "Person" "hobj1" 0, .child 0 "town" ⟨"Town", .entity, some "id"⟩ 0,
    .child 0 "car" ⟨"Car", .entity, some "id"⟩ 0, .child 1 "name" ⟨"String", .property, none⟩ 0]

theorem sample_walksTree : 0 < (grown (.ofStem "hobj") sampleAlterations).size ∧
    (grown (.ofStem "hobj") sampleAlterations).depthFirst 0 = [0, 1, 3, 2] ∧
    WalksTree (.ofStem "hobj") sampleAlterations 0 :=
  ⟨by decide +kernel, by decide +kernel, grown_walksTree (by decide +kernel)⟩

end PathQuery.Graph
