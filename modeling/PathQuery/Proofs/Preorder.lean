import Mathlib.Data.List.Nodup
import PathQuery.Proofs.Ancestry

/-!
# The tree under a node

`depthFirst` walks with a list of nodes still to visit and a bound on its steps. Read without
both, it is the preorder of the tree under a node: the node, then the trees under its children.

Main statements: `depthFirst_eq`, that the two agree; `mem_preorder`, that the preorder has
exactly the descendants, and `nodup_preorder`, each of them once; `sublist_preorder`, that a
descendant stands there with its own tree in order.
-/

namespace PathQuery.Graph

variable {g : Graph} {a c i j : Nat}

/-! ## Children -/

theorem lt_size_of_parent? (h : g.parent? c = some i) : c < g.size := by
  by_contra hc
  rw [parent?, node?_eq_none_iff.2 (Nat.le_of_not_lt hc)] at h
  cases h

theorem children_sublist_range (g : Graph) (i : Nat) :
    (g.children i).Sublist (List.range g.size) := by
  rw [List.range_eq_range', ← show g.nodes.zipIdx.map (·.2) = List.range' 0 g.size from
    List.zipIdx_map_snd 0 g.nodes]
  exact List.filter_sublist.map _

theorem nodup_children (g : Graph) (i : Nat) : (g.children i).Nodup :=
  (children_sublist_range g i).nodup List.nodup_range

/-- What holds of a node as soon as it holds of its children holds of all nodes. -/
theorem down_induction (g : Graph) {motive : Nat → Prop}
    (step : ∀ i, (∀ c, g.parent? c = some i → motive c) → motive i) (i : Nat) : motive i := by
  generalize hd : g.size - i = d
  induction d using Nat.strongRecOn generalizing i with
  | ind d ih =>
    refine step i fun c hc => ih (g.size - c) ?_ c rfl
    have := parent?_lt hc
    have := lt_size_of_parent? hc
    omega

/-! ## The preorder -/

/-- A node and the trees under its children, one after the other. -/
def preorder (g : Graph) (i : Nat) : List Nat :=
  i :: (g.children i).attach.flatMap fun c => preorder g c.1
termination_by g.size - i
decreasing_by
  have hc := mem_children.1 c.2
  have := parent?_lt hc
  have := lt_size_of_parent? hc
  omega

theorem preorder_eq (g : Graph) (i : Nat) :
    g.preorder i = i :: (g.children i).flatMap g.preorder := by
  rw [preorder, List.flatMap_subtype fun _ _ => rfl, List.unattach_attach]

theorem self_mem_preorder (g : Graph) (i : Nat) : i ∈ g.preorder i := by
  rw [preorder_eq]
  exact List.mem_cons_self

theorem mem_preorder_of_child (hc : g.parent? c = some i) (h : j ∈ g.preorder c) :
    j ∈ g.preorder i := by
  rw [preorder_eq]
  exact List.mem_cons_of_mem i (List.mem_flatMap.2 ⟨c, mem_children.2 hc, h⟩)

/-- A descendant is the node itself or a descendant of one of its children. -/
theorem mem_preorder_cases (h : j ∈ g.preorder i) :
    j = i ∨ ∃ c, g.parent? c = some i ∧ j ∈ g.preorder c := by
  rw [preorder_eq, List.mem_cons, List.mem_flatMap] at h
  refine h.imp_right ?_
  rintro ⟨c, hc, hj⟩
  exact ⟨c, mem_children.1 hc, hj⟩

theorem mem_preorder_trans (ha : a ∈ g.preorder j) (hj : j ∈ g.preorder i) :
    a ∈ g.preorder i := by
  induction i using g.down_induction with
  | step i ih =>
    rcases mem_preorder_cases hj with rfl | ⟨c, hc, hjc⟩
    · exact ha
    · exact mem_preorder_of_child hc (ih c hc hjc)

/-- The preorder from a node has the nodes below it and no other. -/
theorem mem_preorder : j ∈ g.preorder i ↔ i ∈ g.lineage j := by
  constructor
  · intro h
    induction i using g.down_induction with
    | step i ih =>
      rcases mem_preorder_cases h with rfl | ⟨c, hc, hj⟩
      · exact g.ancestry.self_mem_chain j
      · have hic : i ∈ g.lineage c := g.ancestry.mem_chain_of_up hc (g.ancestry.self_mem_chain i)
        exact g.ancestry.mem_chain_trans hic (ih c hc hj)
  · intro h
    induction j using Nat.strongRecOn with
    | ind j ih =>
      by_cases hij : i = j
      · exact hij ▸ g.self_mem_preorder i
      · obtain ⟨p, hp, hip⟩ := g.ancestry.exists_up_of_mem_chain h hij
        have hjp : j ∈ g.preorder p := mem_preorder_of_child hp (g.self_mem_preorder j)
        exact mem_preorder_trans hjp (ih p (parent?_lt hp) hip)

theorem nodup_preorder (g : Graph) (i : Nat) : (g.preorder i).Nodup := by
  induction i using g.down_induction with
  | step i ih =>
    rw [preorder_eq, List.nodup_cons, List.nodup_flatMap]
    refine ⟨?_, fun c hc => ih c (mem_children.1 hc), ?_⟩
    · intro h
      obtain ⟨c, hc, hi⟩ := List.mem_flatMap.1 h
      have hci : c ≤ i := g.ancestry.le_of_mem_chain (mem_preorder.1 hi)
      exact absurd (parent?_lt (mem_children.1 hc)) (Nat.not_lt.2 hci)
    · -- Two children above one node have the same parent, so they are the same.
      refine (nodup_children g i).imp_of_mem ?_
      intro b c hb hc hne j hjb hjc
      exact hne (g.ancestry.eq_of_up_eq (mem_preorder.1 hjb) (mem_preorder.1 hjc)
        (mem_children.1 hb) (mem_children.1 hc))

/-- A descendant stands in the preorder with its own tree, in the same order. -/
theorem sublist_preorder (h : a ∈ g.preorder i) : (g.preorder a).Sublist (g.preorder i) := by
  induction i using g.down_induction with
  | step i ih =>
    rcases mem_preorder_cases h with rfl | ⟨c, hc, hac⟩
    · exact List.Sublist.refl _
    · rw [preorder_eq g i]
      refine ((ih c hc hac).trans ?_).cons i
      exact List.sublist_flatten_of_mem (List.mem_map_of_mem (mem_children.2 hc))

/-- Of two nodes on one path the upper one stands first. -/
theorem pair_sublist_preorder (ha : a ∈ g.preorder i) (hj : j ∈ g.preorder a) (hne : a ≠ j) :
    [a, j].Sublist (g.preorder i) := by
  refine List.Sublist.trans ?_ (sublist_preorder ha)
  rw [preorder_eq] at hj ⊢
  have hj' := (List.mem_cons.1 hj).resolve_left (Ne.symm hne)
  exact (List.singleton_sublist.2 hj').cons_cons a

/-! ## The walk -/

/-- A node that is visited makes room for its children. -/
theorem flatMap_preorder_cons (g : Graph) (i : Nat) (rest : List Nat) :
    (i :: rest).flatMap g.preorder = i :: (g.children i ++ rest).flatMap g.preorder := by
  rw [List.flatMap_cons, preorder_eq, List.cons_append, List.flatMap_append]

/-- A walk with enough steps visits the preorder of each node that it has still to visit. -/
theorem walk_eq (fuel : Nat) (stack : List Nat)
    (h : (stack.flatMap g.preorder).length ≤ fuel) :
    g.walk fuel stack = stack.flatMap g.preorder := by
  induction fuel generalizing stack with
  | zero =>
    rw [walk, List.eq_nil_of_length_eq_zero (Nat.le_zero.1 h)]
  | succ fuel ih =>
    cases stack with
    | nil => rfl
    | cons i rest =>
      rw [flatMap_preorder_cons, List.length_cons] at h
      rw [walk, flatMap_preorder_cons, ih _ (Nat.le_of_succ_le_succ h)]

theorem lt_size_of_mem_preorder (hi : i < g.size) (h : j ∈ g.preorder i) : j < g.size := by
  rcases (g.ancestry.mem_chain_iff).1 (mem_preorder.1 h) with rfl | ⟨p, hp, -⟩
  · exact hi
  · exact lt_size_of_parent? hp

theorem length_preorder_le (hi : i < g.size) : (g.preorder i).length ≤ g.size := by
  have hsub : g.preorder i ⊆ List.range g.size := fun j hj =>
    List.mem_range.2 (lt_size_of_mem_preorder hi hj)
  simpa using (nodup_preorder g i).length_le_of_subset hsub

/-- The walk from a node of the graph is the preorder of the tree under it. -/
theorem depthFirst_eq (hi : i < g.size) : g.depthFirst i = g.preorder i := by
  rw [depthFirst, walk_eq]
  · simp
  · simpa using length_preorder_le hi

end PathQuery.Graph
