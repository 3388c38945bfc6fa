import Mathlib.Data.List.Basic
import PathQuery.Proofs.Faults
import PathQuery.Proofs.Leaf

/-!
# What conditions and operands are rendered to

Which pieces a condition or an operand brings into a text, apart from the text itself. An operand
brings those of its leaves (`mem_fragment`), and a list of conditions those of its *active* tests:
the tests that apply, however deep they stand in groups (`mem_conditionsFragment`). In the boolean
structure of the conditions the active tests are the atoms, in their order (`atoms_conjunction`).
-/

namespace PathQuery

variable {g : Graph} {b : Bindings} {d : Draft} {p : Piece}

/-! ## Operands -/

def Leaf.fragment (g : Graph) (b : Bindings) : Leaf Nat → Fragment
  | .node i => g.nodeFragment i
  | .value v => [.slot none v]
  | .parameter name => (Operand.parameter name).fragment g b
  | .raw text values => rawFragment text values

mutual

/-- The pieces of an operand are those of its leaves. -/
theorem Operand.mem_fragment (hp : p.isText = false) : (o : Operand Nat) →
    (p ∈ o.fragment g b ↔ ∃ l ∈ o.leaves, p ∈ l.fragment g b)
  | .node i => by simp [Operand.leaves, Operand.fragment, Leaf.fragment]
  | .value v => by simp [Operand.leaves, Operand.fragment, Leaf.fragment]
  | .parameter name => by simp [Operand.leaves, Leaf.fragment]
  | .expression e => by
    rw [Operand.fragment, Operand.leaves]
    exact e.mem_fragment hp

theorem Expression.mem_fragment (hp : p.isText = false) : (e : Expression Nat) →
    (p ∈ e.fragment g b ↔ ∃ l ∈ e.leaves, p ∈ l.fragment g b)
  | .call name args => by
    have hne := Piece.ne_text hp
    rw [Expression.leaves, ← Operand.mem_fragments hp args, Expression.fragment]
    simp [hne, Fragment.mem_joined hp]
  | .aggregate func distinct arg => by
    have hne := Piece.ne_text hp
    rw [Expression.leaves, ← arg.mem_fragment hp, Expression.fragment]
    simp [hne]
  | .raw text values => by simp [Expression.leaves, Expression.fragment, Leaf.fragment]
  | .literal v => by simp [Expression.leaves, Expression.fragment, Leaf.fragment]

theorem Operand.mem_fragments (hp : p.isText = false) : (args : List (Operand Nat)) →
    ((∃ f ∈ Operand.fragments g b args, p ∈ f) ↔
      ∃ l ∈ Operand.leavesOf args, p ∈ l.fragment g b)
  | [] => by simp [Operand.fragments, Operand.leavesOf]
  | a :: rest => by
    rw [Operand.fragments, Operand.leavesOf, List.exists_mem_cons_iff,
      Operand.mem_fragment hp a, Operand.mem_fragments hp rest]
    simp only [List.mem_append, or_and_right, exists_or]

end

/-! ## Active tests -/

mutual

/-- The tests of a condition that apply. -/
def Condition.active (b : Bindings) : Condition → List Test
  | .test guard t => if t.applies b guard then [t] else []
  | .group _ members => Condition.activeOf b members

def Condition.activeOf (b : Bindings) : List Condition → List Test
  | [] => []
  | c :: cs => c.active b ++ Condition.activeOf b cs

end

theorem Condition.mem_activeOf {t : Test} {cs : List Condition} :
    t ∈ Condition.activeOf b cs ↔ ∃ c ∈ cs, t ∈ c.active b := by
  induction cs with
  | nil => simp [Condition.activeOf]
  | cons c cs ih => simp [Condition.activeOf, ih]

mutual

theorem Condition.mem_tests_of_active {t : Test} : (c : Condition) → t ∈ c.active b → t ∈ c.tests
  | .test guard t', h => by
    rw [Condition.active] at h
    split at h
    · exact h
    · cases h
  | .group _ members, h => Condition.mem_testsOf_of_activeOf members h

theorem Condition.mem_testsOf_of_activeOf {t : Test} : (cs : List Condition) →
    t ∈ Condition.activeOf b cs → t ∈ Condition.testsOf cs
  | [], h => nomatch h
  | c :: cs, h => by
    rw [Condition.activeOf, List.mem_append] at h
    rw [Condition.testsOf, List.mem_append]
    exact h.imp c.mem_tests_of_active (Condition.mem_testsOf_of_activeOf cs)

end

mutual

/-- A condition that does not apply has no active test. -/
theorem Condition.active_eq_nil : (c : Condition) → c.applies b = false → c.active b = []
  | .test guard t, h => by
    rw [Condition.applies] at h
    simp [Condition.active, h]
  | .group _ members, h => by
    rw [Condition.active]
    exact Condition.activeOf_eq_nil members h

theorem Condition.activeOf_eq_nil : (cs : List Condition) → Condition.anyApplies b cs = false →
    Condition.activeOf b cs = []
  | [], _ => rfl
  | c :: cs, h => by
    obtain ⟨hc, hcs⟩ := Bool.or_eq_false_iff.1 h
    rw [Condition.activeOf, c.active_eq_nil hc, Condition.activeOf_eq_nil cs hcs, List.nil_append]

end

/-! ## Atoms -/

/-- The atom that a token is, if it is one. -/
def Token.atom? {α : Type} : Token α → Option α
  | .atom a => some a
  | _ => none

/-- The atoms of a text in their order. -/
def atoms {α : Type} (tokens : List (Token α)) : List α := tokens.filterMap Token.atom?

theorem mem_atoms {α : Type} {a : α} {tokens : List (Token α)} :
    a ∈ atoms tokens ↔ .atom a ∈ tokens := by
  rw [atoms, List.mem_filterMap]
  constructor
  · rintro ⟨k, hk, ha⟩
    cases k with
    | atom a' =>
      cases ha
      exact hk
    | opening | closing | junction => cases ha
  · exact fun h => ⟨_, h, rfl⟩

theorem atoms_append {α : Type} (ts ts' : List (Token α)) :
    atoms (ts ++ ts') = atoms ts ++ atoms ts' := List.filterMap_append

theorem atoms_intercalate {α : Type} (j : Junction) (parts : List (List (Token α))) :
    atoms (List.intercalate [.junction j] parts) = parts.flatMap atoms := by
  induction parts with
  | nil => rfl
  | cons part rest ih =>
    cases rest with
    | nil => simp [atoms]
    | cons part' rest =>
      have hjunction : atoms ([.junction j] : List (Token α)) = [] := rfl
      rw [List.intercalate_cons_cons, atoms_append, atoms_append, hjunction, ih, List.append_nil]
      simp only [List.flatMap_cons]

theorem atoms_enclose {α : Type} (j : Junction) (parts : List (List (Token α))) :
    atoms (enclose j parts) = parts.flatMap atoms := by
  unfold enclose
  split
  · simp
  · rw [List.cons_append, ← atoms_intercalate j, atoms, List.filterMap_cons_none rfl,
      List.filterMap_append]
    simp [atoms, Token.atom?]

mutual

/-- The atoms of a condition that applies are its active tests. -/
theorem Condition.atoms_tokens : (c : Condition) → c.applies b = true →
    atoms (c.tokens b) = c.active b
  | .test guard t, h => by
    rw [Condition.applies] at h
    simp [Condition.tokens, Condition.active, h, atoms, Token.atom?]
  | .group j members, _ => by
    rw [Condition.tokens, atoms_enclose, Condition.active]
    exact Condition.atoms_parts members

theorem Condition.atoms_parts : (cs : List Condition) →
    (Condition.parts b cs).flatMap atoms = Condition.activeOf b cs
  | [] => rfl
  | c :: cs => by
    have hrest := Condition.atoms_parts cs
    rw [Condition.parts, Condition.activeOf]
    by_cases h : c.applies b = true
    · rw [if_pos h, List.flatMap_cons, c.atoms_tokens h, hrest]
    · rw [if_neg h, c.active_eq_nil (by simpa using h), hrest, List.nil_append]

end

/-- **The atoms of a list of conditions** are its active tests, in their order. -/
theorem atoms_conjunction (b : Bindings) (cs : List Condition) :
    atoms (conjunction b cs) = Condition.activeOf b cs := by
  rw [conjunction, atoms_intercalate, Condition.atoms_parts]

theorem atom_mem_conjunction {t : Test} {cs : List Condition} :
    .atom t ∈ conjunction b cs ↔ t ∈ Condition.activeOf b cs := by
  rw [← mem_atoms, atoms_conjunction]

/-! ## Tests and conditions -/

/-- The operands that stand in the text of a test: a test on no candidates is written without its
operand. -/
def Test.rendered : Test → List (Operand Nat)
  | .oneOf _ [] _ => []
  | t => t.operands

theorem Test.mem_operands_of_rendered {t : Test} {o : Operand Nat} (h : o ∈ t.rendered) :
    o ∈ t.operands := by
  unfold Test.rendered at h
  split at h
  · cases h
  · exact h

namespace Draft

variable {sub : Nat → Fragment}

theorem mem_testFragment (hp : p.isText = false) (t : Test) : p ∈ d.testFragment sub t ↔
    (∃ o ∈ t.rendered, p ∈ d.operandFragment o) ∨ ∃ inner ∈ t.subs, p ∈ sub inner := by
  have hne := Piece.ne_text hp
  cases t with
  | compare left op right =>
    simp [testFragment, Test.rendered, Test.operands, Test.subs, hne]
  | between operand low high =>
    simp [testFragment, Test.rendered, Test.operands, Test.subs, hne]
  | oneOf operand candidates negated =>
    cases candidates with
    | nil => simp [testFragment, Test.rendered, Test.subs, hne]
    | cons c rest =>
      rw [testFragment]
      · simp [Test.rendered, Test.operands, Test.subs, hne, Fragment.mem_joined hp,
          -List.map_cons, List.mem_map]
      · exact List.cons_ne_nil c rest
  | inSub operand scope negated =>
    simp [testFragment, Test.rendered, Test.operands, Test.subs, hne]
  | hasRows scope negated =>
    simp [testFragment, Test.rendered, Test.operands, Test.subs, hne]
  | isNull operand negated =>
    simp [testFragment, Test.rendered, Test.operands, Test.subs, hne]

/-- The pieces of a list of conditions are those of its active tests. -/
theorem mem_conditionsFragment (hp : p.isText = false) (keyword : String)
    (cs : List Condition) : p ∈ d.conditionsFragment sub keyword cs ↔
      ∃ t ∈ Condition.activeOf d.bindings cs, p ∈ d.testFragment sub t := by
  have hne := Piece.ne_text hp
  have htokens : p ∈ d.conditionsFragment sub keyword cs ↔
      ∃ k ∈ conjunction d.bindings cs, p ∈ k.fragment (d.testFragment sub) := by
    unfold conditionsFragment
    split
    · next h => simp [h]
    · simp [hne]
  rw [htokens]
  constructor
  · rintro ⟨k, hk, hpk⟩
    cases k with
    | atom t => exact ⟨t, atom_mem_conjunction.1 hk, hpk⟩
    | opening | closing | junction => simp [Token.fragment, hne] at hpk
  · rintro ⟨t, ht, hpt⟩
    exact ⟨.atom t, atom_mem_conjunction.2 ht, hpt⟩

end Draft

end PathQuery
