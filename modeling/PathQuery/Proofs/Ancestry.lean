import Mathlib.Logic.Relation
import Mathlib.Tactic.ByContra
import PathQuery.Scope

/-!
# Ancestors

Nodes of a graph and scopes of a query are numbered in the order of their creation, and what is
above a number is smaller. Both carry a list of a number and all that is above it, `lineage` for
nodes and `enclosing` for scopes; an `Ancestry` is what the two have in common.

Main statements: membership in the list is a partial order (`mem_chain_trans`,
`eq_of_mem_chain`), and what is above one number is linearly ordered (`mem_chain_linear`).
-/

namespace PathQuery

/-- A forest on numbers in which the parent is the smaller one, with the list of each number and
its ancestors, the number itself first. -/
structure Ancestry where
  up : Nat → Option Nat
  chain : Nat → List Nat
  up_lt : ∀ {i p : Nat}, up i = some p → p < i
  chain_of_none : ∀ {i : Nat}, up i = none → chain i = [i]
  chain_of_some : ∀ {i p : Nat}, up i = some p → chain i = i :: chain p

namespace Ancestry

variable (t : Ancestry) {a b c i p : Nat}

theorem mem_chain_iff : a ∈ t.chain i ↔ a = i ∨ ∃ p, t.up i = some p ∧ a ∈ t.chain p := by
  cases h : t.up i with
  | none => simp [t.chain_of_none h]
  | some p => simp [t.chain_of_some h]

theorem self_mem_chain (i : Nat) : i ∈ t.chain i := (t.mem_chain_iff).2 (Or.inl rfl)

theorem mem_chain_of_up (h : t.up i = some p) (ha : a ∈ t.chain p) : a ∈ t.chain i :=
  (t.mem_chain_iff).2 (Or.inr ⟨p, h, ha⟩)

/-- A proper ancestor is an ancestor of the parent. -/
theorem mem_chain_up (ha : a ∈ t.chain i) (hne : a ≠ i) (h : t.up i = some p) :
    a ∈ t.chain p := by
  rcases (t.mem_chain_iff).1 ha with rfl | ⟨p', hp', hap⟩
  · exact absurd rfl hne
  · rw [h] at hp'
    cases hp'
    exact hap

theorem exists_up_of_mem_chain (ha : a ∈ t.chain i) (hne : a ≠ i) :
    ∃ p, t.up i = some p ∧ a ∈ t.chain p :=
  ((t.mem_chain_iff).1 ha).resolve_left hne

theorem le_of_mem_chain (ha : a ∈ t.chain i) : a ≤ i := by
  induction i using Nat.strongRecOn with
  | ind i ih =>
    rcases (t.mem_chain_iff).1 ha with rfl | ⟨p, hp, hap⟩
    · exact Nat.le_refl a
    · exact Nat.le_of_lt (Nat.lt_of_le_of_lt (ih p (t.up_lt hp) hap) (t.up_lt hp))

theorem mem_chain_trans (hab : a ∈ t.chain b) (hbc : b ∈ t.chain c) : a ∈ t.chain c := by
  induction c using Nat.strongRecOn with
  | ind c ih =>
    rcases (t.mem_chain_iff).1 hbc with rfl | ⟨p, hp, hbp⟩
    · exact hab
    · exact t.mem_chain_of_up hp (ih p (t.up_lt hp) hbp)

theorem eq_of_mem_chain (hab : a ∈ t.chain b) (hba : b ∈ t.chain a) : a = b :=
  Nat.le_antisymm (t.le_of_mem_chain hab) (t.le_of_mem_chain hba)

/-- Of two ancestors of one number, one is an ancestor of the other. -/
theorem mem_chain_linear (ha : a ∈ t.chain i) (hb : b ∈ t.chain i) :
    a ∈ t.chain b ∨ b ∈ t.chain a := by
  induction i using Nat.strongRecOn with
  | ind i ih =>
    by_cases hai : a = i
    · exact Or.inr (hai ▸ hb)
    · by_cases hbi : b = i
      · exact Or.inl (hbi ▸ ha)
      · obtain ⟨p, hp, hap⟩ := t.exists_up_of_mem_chain ha hai
        exact ih p (t.up_lt hp) hap (t.mem_chain_up hb hbi hp)

/-- Two ancestors of one number with the same parent are the same. -/
theorem eq_of_up_eq (ha : a ∈ t.chain i) (hb : b ∈ t.chain i) (hap : t.up a = some p)
    (hbp : t.up b = some p) : a = b := by
  by_contra hne
  rcases t.mem_chain_linear ha hb with h | h
  · have hle := t.le_of_mem_chain (t.mem_chain_up h hne hbp)
    exact absurd (t.up_lt hap) (Nat.not_lt.2 hle)
  · have hle := t.le_of_mem_chain (t.mem_chain_up h (Ne.symm hne) hap)
    exact absurd (t.up_lt hbp) (Nat.not_lt.2 hle)

/-- The ancestors of a number are those that links to parents lead to. -/
theorem mem_chain_iff_reflTransGen :
    a ∈ t.chain i ↔ Relation.ReflTransGen (fun j p => t.up j = some p) i a := by
  constructor
  · intro h
    induction i using Nat.strongRecOn with
    | ind i ih =>
      rcases (t.mem_chain_iff).1 h with rfl | ⟨p, hp, hap⟩
      · exact .refl
      · exact .head hp (ih p (t.up_lt hp) hap)
  · intro h
    induction h using Relation.ReflTransGen.head_induction_on with
    | refl => exact t.self_mem_chain a
    | head hp _ ih => exact t.mem_chain_of_up hp ih

/-- Forests that agree on parents agree on ancestors. -/
theorem chain_congr (t' : Ancestry) (h : ∀ j, j ≤ i → t'.up j = t.up j) :
    t'.chain i = t.chain i := by
  induction i using Nat.strongRecOn with
  | ind i ih =>
    cases hi : t.up i with
    | none => rw [t.chain_of_none hi, t'.chain_of_none ((h i (Nat.le_refl i)).trans hi)]
    | some p =>
      have hp := t.up_lt hi
      rw [t.chain_of_some hi, t'.chain_of_some ((h i (Nat.le_refl i)).trans hi)]
      rw [ih p hp fun j hj => h j (Nat.le_trans hj (Nat.le_of_lt hp))]

end Ancestry

/-- The nodes of a graph under their parents. -/
def Graph.ancestry (g : Graph) : Ancestry where
  up := g.parent?
  chain := g.lineage
  up_lt := Graph.parent?_lt
  chain_of_none := Graph.lineage_of_root
  chain_of_some := Graph.lineage_of_parent

/-- The scopes of a query under the scopes that directly enclose them. -/
def Scopes.ancestry (t : Scopes) : Ancestry where
  up := t.outer?
  chain := t.enclosing
  up_lt := Scopes.outer?_lt
  chain_of_none := Scopes.enclosing_of_outermost
  chain_of_some := Scopes.enclosing_of_outer

namespace Scopes

variable {t : Scopes} {a b c i p : Nat}

theorem encloses_iff : t.encloses a i = true ↔ a ∈ t.enclosing i := by
  simp [encloses]

@[simp] theorem encloses_self (t : Scopes) (i : Nat) : t.encloses i i = true :=
  encloses_iff.2 (t.ancestry.self_mem_chain i)

theorem encloses_trans (hab : t.encloses a b = true) (hbc : t.encloses b c = true) :
    t.encloses a c = true :=
  encloses_iff.2 (t.ancestry.mem_chain_trans (encloses_iff.1 hab) (encloses_iff.1 hbc))

theorem eq_of_encloses (hab : t.encloses a b = true) (hba : t.encloses b a = true) : a = b :=
  t.ancestry.eq_of_mem_chain (encloses_iff.1 hab) (encloses_iff.1 hba)

theorem le_of_encloses (h : t.encloses a i = true) : a ≤ i :=
  t.ancestry.le_of_mem_chain (encloses_iff.1 h)

theorem encloses_iff_outer : t.encloses a i = true ↔
    a = i ∨ ∃ p, t.outer? i = some p ∧ t.encloses a p = true := by
  simp only [encloses_iff]
  exact t.ancestry.mem_chain_iff

end Scopes

end PathQuery
