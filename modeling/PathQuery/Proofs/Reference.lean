import PathQuery.Graph.Reference
import PathQuery.Proofs.Ownership

/-!
# Owners of aliases

A node that owns an alias is written by it. Every other node is written by what its parent is
written by and its segment, so a reference starts with the alias of the nearest node above that
owns one. The way up to it meets no node of an entity that is joined.
-/

namespace PathQuery

namespace Graph

variable {g : Graph} {i : Nat} {name : String}

/-- A node that owns an alias is written by it. -/
theorem reference_of_alias? (h : g.alias? i = some name) : g.reference i = name := by
  have hl : ∃ above, g.lineage i = i :: above := by
    cases hp : g.parent? i with
    | none => exact ⟨[], lineage_of_root hp⟩
    | some p => exact ⟨_, lineage_of_parent hp⟩
  obtain ⟨above, hl⟩ := hl
  rw [reference, hl, referenceAlong, h]

theorem ownsAlias_of_alias? (h : g.alias? i = some name) : g.ownsAlias i = true := by
  by_contra hno
  rw [alias?, if_neg hno] at h
  cases h

theorem isEntity_of_ownsAlias (h : g.ownsAlias i = true) :
    ∃ n, g.node? i = some n ∧ n.kind.isEntity = true := by
  unfold ownsAlias at h
  cases hn : g.node? i with
  | none => simp [kind?, hn] at h
  | some n =>
    refine ⟨n, rfl, ?_⟩
    cases hk : n.kind <;> simp [kind?, hn, hk, NodeKind.isEntity] at h ⊢

/-- A join that owns an alias has a keyword. -/
theorem exists_keyword (h : g.ownsAlias i = true) (hk : g.kind? i ≠ some .root) :
    ∃ keyword, (g.joinType i).keyword? = some keyword := by
  have hne : g.joinType i ≠ .none := by
    unfold ownsAlias at h
    split at h
    · next hroot => exact absurd hroot hk
    · simpa using h
    · simpa using h
    · cases h
  cases hj : g.joinType i with
  | none => exact absurd hj hne
  | _ => exact ⟨_, rfl⟩

theorem kind?_ne_root {p : Nat} {t : Scopes} (ho : Owned g t) (hp : g.parent? i = some p) :
    g.kind? i ≠ some .root := by
  obtain ⟨n, hn, hpar⟩ := parent?_eq_some_iff.1 hp
  rw [kind?, hn]
  intro hk
  rw [(ho.root_iff hn).1 (Option.some.inj hk)] at hpar
  cases hpar

end Graph

theorem Owned.exists_alias? {g : Graph} {t : Scopes} (ho : Owned g t) {i : Nat}
    (h : g.ownsAlias i = true) : ∃ name, g.alias? i = some name := by
  obtain ⟨n, hn, he⟩ := Graph.isEntity_of_ownsAlias h
  rw [← ho.alias_isSome hn, Option.isSome_iff_exists] at he
  obtain ⟨name, hname⟩ := he
  exact ⟨name, by simp [Graph.alias?, h, hn, hname]⟩

/-! ## Heads of references -/

/-- Whether a reference is an alias, or a path that starts at it. -/
def Headed (name text : String) : Prop := text = name ∨ ∃ path, text = name ++ "." ++ path

theorem Headed.segment {name text : String} (h : Headed name text) (segment : String) :
    ∃ path, text ++ "." ++ segment = name ++ "." ++ path := by
  rcases h with rfl | ⟨path, rfl⟩
  · exact ⟨segment, rfl⟩
  · exact ⟨path ++ "." ++ segment, by simp [String.append_assoc]⟩

namespace Graph

variable {g : Graph} {i p : Nat}

/-- A node without an alias of its own is written through its parent. -/
theorem reference_of_parent (ha : g.alias? i = none) (hp : g.parent? i = some p) :
    g.reference i = g.reference p ++ "." ++ g.segment i := by
  have hne : (g.lineage p).isEmpty = false := by
    cases hq : g.parent? p with
    | none => rw [lineage_of_root hq]; rfl
    | some q => rw [lineage_of_parent hq]; rfl
  rw [reference, lineage_of_parent hp, referenceAlong, ha]
  simp only [hne, Bool.false_eq_true, if_false]
  rfl

end Graph

/-- **Heads of references.** A reference starts with the alias of the nearest node, at or above the
one that is written, that owns an alias. -/
theorem Owned.exists_nearest_head {g : Graph} {t : Scopes} (ho : Owned g t) {i : Nat}
    (hi : i < g.size) : ∃ a name, a ∈ g.lineage i ∧ g.alias? a = some name ∧
      Headed name (g.reference i) ∧
      ∀ b ∈ g.lineage i, g.ownsAlias b = true → b ∈ g.lineage a := by
  induction i using Nat.strongRecOn with
  | ind i ih =>
    cases ha : g.alias? i with
    | some name =>
      exact ⟨i, name, g.ancestry.self_mem_chain i, ha, Or.inl (Graph.reference_of_alias? ha),
        fun b hb _ => hb⟩
    | none =>
      cases hp : g.parent? i with
      | none =>
        -- A node without a parent is a root, and a root owns an alias.
        obtain ⟨n, hn⟩ := Graph.exists_node?_of_lt hi
        have hpar : n.parent = none := by simpa [Graph.parent?, hn] using hp
        have hkind : g.kind? i = some .root := by
          rw [Graph.kind?, hn, Option.map_some, (ho.root_iff hn).2 hpar]
        obtain ⟨name, hname⟩ := ho.exists_alias? (i := i) (by rw [Graph.ownsAlias, hkind])
        rw [ha] at hname
        cases hname
      | some p =>
        have hlt := Graph.parent?_lt hp
        obtain ⟨a, name, hap, hname, hhead, hnear⟩ := ih p hlt (Nat.lt_trans hlt hi)
        refine ⟨a, name, g.ancestry.mem_chain_of_up hp hap, hname, Or.inr ?_, ?_⟩
        · rw [Graph.reference_of_parent ha hp]
          exact hhead.segment _
        · intro b hb howns
          have hne : b ≠ i := by
            rintro rfl
            obtain ⟨name, hname⟩ := ho.exists_alias? howns
            rw [ha] at hname
            cases hname
          obtain ⟨q, hq, hbq⟩ := g.ancestry.exists_up_of_mem_chain hb hne
          obtain rfl : p = q := Option.some.inj (hp.symm.trans hq)
          exact hnear b hbq howns

theorem Owned.exists_head {g : Graph} {t : Scopes} (ho : Owned g t) {i : Nat} (hi : i < g.size) :
    ∃ a name, a ∈ g.lineage i ∧ g.alias? a = some name ∧ Headed name (g.reference i) := by
  obtain ⟨a, name, ha, hname, hhead, -⟩ := ho.exists_nearest_head hi
  exact ⟨a, name, ha, hname, hhead⟩

end PathQuery
