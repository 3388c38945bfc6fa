import PathQuery.Proofs.Ownership
import PathQuery.Proofs.Preorder

/-!
# What a scope declares

The walks that make up a declaration order start at the *starts* of a scope: its roots and the
nodes attached to it. A node is a start if the scope owns it and does not own its parent.

Scopes only grow inwards along a path, so once a path has left the nodes of a scope it does not
come back to them. Above every node that a scope owns there is therefore exactly one start, the
trees under two starts have no node in common, and the walks meet every owned node once.

Main statement: `Owned.declarationOrder_lists`.
-/

namespace PathQuery

/-- The nodes from which the declaration order of a scope is walked. -/
def Scopes.starts (t : Scopes) (s : Nat) : List Nat := t.roots s ++ t.attached s

/-- Whether a node is one that a scope lists in its declaration order. -/
def Graph.isListed (g : Graph) (s i : Nat) : Bool :=
  (g.node? i).any fun n => n.kind.isEntity && n.scope == s

theorem Graph.isListed_iff {g : Graph} {s i : Nat} : g.isListed s i = true ↔
    ∃ n, g.node? i = some n ∧ n.kind.isEntity = true ∧ n.scope = s := by
  simp [isListed, Option.any_eq_true]

/-- Whether a list has the entities of a scope, each of them once and after the ones above it. -/
structure Graph.Lists (g : Graph) (s : Nat) (order : List Nat) : Prop where
  nodup : order.Nodup
  mem_iff : ∀ i, i ∈ order ↔ ∃ n, g.node? i = some n ∧ n.kind.isEntity = true ∧ n.scope = s
  sorted : ∀ a i, a ∈ order → i ∈ order → a ∈ g.lineage i → a ≠ i → [a, i].Sublist order

namespace Owned

variable {g : Graph} {t : Scopes} {a i p r s : Nat}

/-! ## Starts -/

theorem scope?_parent (hp : g.parent? i = some p) : ∃ r, g.scope? p = some r := by
  obtain ⟨n, hn, -⟩ := Graph.parent?_eq_some_iff.1 hp
  have hlt : p < g.size := Nat.lt_trans (Graph.parent?_lt hp) (Graph.lt_size_of_node? hn)
  obtain ⟨m, hm⟩ := Graph.exists_node?_of_lt hlt
  exact ⟨m.scope, Graph.scope?_eq_some_iff.2 ⟨m, hm, rfl⟩⟩

theorem exists_root (ho : Owned g t) (hi : i ∈ t.roots s) :
    ∃ n, g.node? i = some n ∧ n.kind = .root ∧ n.scope = s := by
  rw [ho.roots] at hi
  have hroot := (List.mem_filter.1 hi).2
  rw [Graph.isRootOf, Option.any_eq_true] at hroot
  obtain ⟨n, hn, hk⟩ := hroot
  rw [Bool.and_eq_true, beq_iff_eq, beq_iff_eq] at hk
  exact ⟨n, hn, hk⟩

theorem exists_parent (ho : Owned g t) (hi : i ∈ t.attached s) : ∃ p, g.parent? i = some p := by
  rw [ho.attached] at hi
  have hatt := (List.mem_filter.1 hi).2
  rw [Graph.isAttachedTo, Option.any_eq_true] at hatt
  obtain ⟨n, hn, hk⟩ := hatt
  cases hp : n.parent with
  | none => simp [hp] at hk
  | some p => exact ⟨p, Graph.parent?_eq_some_iff.2 ⟨n, hn, hp⟩⟩

/-- A start is a node that the scope owns and whose parent it does not own. -/
theorem mem_starts (ho : Owned g t) : i ∈ t.starts s ↔
    g.scope? i = some s ∧ ∀ p, g.parent? i = some p → g.scope? p ≠ some s := by
  rw [Scopes.starts, ho.roots, ho.attached, List.mem_append, List.mem_filter, List.mem_filter,
    List.mem_range, Graph.isRootOf, Graph.isAttachedTo, Graph.scope?, Graph.parent?]
  cases hn : g.node? i with
  | none => simp
  | some n =>
    have hlt := Graph.lt_size_of_node? hn
    have hroot := ho.root_iff hn
    cases hp : n.parent with
    | none =>
      rw [hp] at hroot
      simp [hlt, hp, hroot.2 rfl]
    | some p =>
      obtain ⟨r, hr⟩ := scope?_parent (i := i) (Graph.parent?_eq_some_iff.2 ⟨n, hn, hp⟩)
      have hkind : n.kind ≠ .root := fun h => by simp [hroot.1 h] at hp
      simp [hlt, hp, hr, hkind]

theorem lt_size_of_start (ho : Owned g t) (hi : i ∈ t.starts s) : i < g.size :=
  Graph.lt_size_of_scope? (ho.mem_starts.1 hi).1

theorem nodup_starts (ho : Owned g t) (s : Nat) : (t.starts s).Nodup := by
  have hroots : (t.roots s).Nodup := by
    rw [ho.roots]
    exact List.nodup_range.filter _
  have hattached : (t.attached s).Nodup := by
    rw [ho.attached]
    exact List.nodup_range.filter _
  refine List.Nodup.append hroots hattached ?_
  intro i hi hi'
  obtain ⟨n, hn, hk, -⟩ := ho.exists_root hi
  obtain ⟨p, hp⟩ := ho.exists_parent hi'
  rw [Graph.parent?, hn, Option.bind_some, (ho.root_iff hn).1 hk] at hp
  cases hp

/-! ## Paths and scopes -/

/-- Scopes only grow inwards on the way down. -/
theorem encloses_of_mem_lineage (ho : Owned g t) (ha : a ∈ g.lineage i)
    (hr : g.scope? a = some r) (hs : g.scope? i = some s) : t.encloses r s = true := by
  induction i using Nat.strongRecOn generalizing s with
  | ind i ih =>
    rcases (g.ancestry.mem_chain_iff).1 ha with rfl | ⟨p, hp, hap⟩
    · rw [hr] at hs
      cases hs
      exact Scopes.encloses_self t r
    · obtain ⟨m, hm⟩ := scope?_parent hp
      exact Scopes.encloses_trans (ih p (Graph.parent?_lt hp) hap hm) (ho.nested hp hs hm)

/-- Between two nodes of one scope a path stays in the scope. -/
theorem scope?_of_between (ho : Owned g t) (hap : a ∈ g.lineage p) (hpi : p ∈ g.lineage i)
    (ha : g.scope? a = some s) (hi : g.scope? i = some s) : g.scope? p = some s := by
  have hm : ∃ m, g.scope? p = some m := by
    rcases (g.ancestry.mem_chain_iff).1 hap with rfl | ⟨q, hq, -⟩
    · exact ⟨s, ha⟩
    · obtain ⟨n, hn, -⟩ := Graph.parent?_eq_some_iff.1 hq
      exact ⟨n.scope, Graph.scope?_eq_some_iff.2 ⟨n, hn, rfl⟩⟩
  obtain ⟨m, hm⟩ := hm
  have hsm := ho.encloses_of_mem_lineage hap ha hm
  have hms := ho.encloses_of_mem_lineage hpi hm hi
  rw [hm, Scopes.eq_of_encloses hms hsm]

/-- Above a node that a scope owns there is a start of the scope. -/
theorem exists_start (ho : Owned g t) (hi : g.scope? i = some s) :
    ∃ a ∈ t.starts s, a ∈ g.lineage i := by
  induction i using Nat.strongRecOn with
  | ind i ih =>
    by_cases hp : ∃ p, g.parent? i = some p ∧ g.scope? p = some s
    · obtain ⟨p, hp, hs⟩ := hp
      obtain ⟨a, ha, hap⟩ := ih p (Graph.parent?_lt hp) hs
      exact ⟨a, ha, g.ancestry.mem_chain_of_up hp hap⟩
    · have hstart : i ∈ t.starts s :=
        ho.mem_starts.2 ⟨hi, fun p hpar hsp => hp ⟨p, hpar, hsp⟩⟩
      exact ⟨i, hstart, g.ancestry.self_mem_chain i⟩

/-- The outermost scope owns nodes only if it has a root. -/
theorem roots_outermost_ne_nil (ho : Owned g t) (hi : g.scope? i = some 0) : t.roots 0 ≠ [] := by
  obtain ⟨a, ha, -⟩ := ho.exists_start hi
  obtain ⟨hscope, hparent⟩ := ho.mem_starts.1 ha
  rcases List.mem_append.1 ha with hroot | hatt
  · exact List.ne_nil_of_mem hroot
  · obtain ⟨p, hp⟩ := ho.exists_parent hatt
    obtain ⟨r, hr⟩ := scope?_parent hp
    have hle := Scopes.le_of_encloses (ho.nested hp hscope hr)
    rw [Nat.le_zero.1 hle] at hr
    exact absurd hr (hparent p hp)

/-- A start above another one is the same. -/
theorem start_eq_of_mem_lineage (ho : Owned g t) {a b : Nat} (ha : a ∈ t.starts s)
    (hb : b ∈ t.starts s) (hab : a ∈ g.lineage b) : a = b := by
  by_contra hne
  obtain ⟨p, hp, hap⟩ := g.ancestry.exists_up_of_mem_chain hab hne
  have has := (ho.mem_starts.1 ha).1
  have hbs := ho.mem_starts.1 hb
  have hpb : p ∈ g.lineage b := g.ancestry.mem_chain_of_up hp (g.ancestry.self_mem_chain p)
  exact hbs.2 p hp (ho.scope?_of_between hap hpb has hbs.1)

/-- There is only one start above a node. -/
theorem start_unique (ho : Owned g t) {a b : Nat} (ha : a ∈ t.starts s) (hb : b ∈ t.starts s)
    (hai : a ∈ g.lineage i) (hbi : b ∈ g.lineage i) : a = b := by
  rcases g.ancestry.mem_chain_linear hai hbi with hab | hba
  · exact ho.start_eq_of_mem_lineage ha hb hab
  · exact (ho.start_eq_of_mem_lineage hb ha hba).symm

/-! ## The declaration order -/

theorem declarationOrder_eq (ho : Owned g t) (s : Nat) :
    t.declarationOrder g s = ((t.starts s).flatMap g.preorder).filter (g.isListed s) := by
  have hwalk : (t.starts s).flatMap g.depthFirst = (t.starts s).flatMap g.preorder :=
    List.flatMap_congr fun i hi => Graph.depthFirst_eq (ho.lt_size_of_start hi)
  rw [Scopes.declarationOrder, ← Scopes.starts, hwalk]
  rfl

theorem nodup_walk (ho : Owned g t) (s : Nat) : ((t.starts s).flatMap g.preorder).Nodup := by
  rw [List.nodup_flatMap]
  refine ⟨fun i _ => g.nodup_preorder i, (ho.nodup_starts s).imp_of_mem ?_⟩
  intro a b ha hb hne j hja hjb
  exact hne (ho.start_unique ha hb (Graph.mem_preorder.1 hja) (Graph.mem_preorder.1 hjb))

/-- **What a scope declares.** The declaration order of a scope has its entities, each of them
once and after the ones above it. -/
theorem declarationOrder_lists (ho : Owned g t) (s : Nat) :
    g.Lists s (t.declarationOrder g s) := by
  rw [ho.declarationOrder_eq]
  refine ⟨(ho.nodup_walk s).filter _, ?_, ?_⟩
  · intro i
    rw [List.mem_filter, Graph.isListed_iff, and_iff_right_iff_imp]
    rintro ⟨n, hn, -, hs⟩
    obtain ⟨a, ha, hai⟩ := ho.exists_start (Graph.scope?_eq_some_iff.2 ⟨n, hn, hs⟩)
    exact List.mem_flatMap.2 ⟨a, ha, Graph.mem_preorder.2 hai⟩
  · intro a i ha hi hai hne
    obtain ⟨ha, hal⟩ := List.mem_filter.1 ha
    obtain ⟨b, hb, hab⟩ := List.mem_flatMap.1 ha
    have hpair : [a, i].Sublist (g.preorder b) :=
      Graph.pair_sublist_preorder hab (Graph.mem_preorder.2 hai) hne
    have hwalk : [a, i].Sublist ((t.starts s).flatMap g.preorder) :=
      hpair.trans (List.sublist_flatten_of_mem (List.mem_map_of_mem hb))
    have hfilter := hwalk.filter (g.isListed s)
    rwa [List.filter_cons_of_pos hal, List.filter_cons_of_pos (List.mem_filter.1 hi).2,
      List.filter_nil] at hfilter

end Owned

end PathQuery
