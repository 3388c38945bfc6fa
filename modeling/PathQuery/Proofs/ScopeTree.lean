import Mathlib.Data.List.Induction
import PathQuery.Proofs.Growth

/-!
# The tree of scopes

A scope is opened inside the current one, and closing any scope makes the one around it current
again. However scopes are opened and closed (`Passage`), the scope around a scope was issued before
it, and every scope but the outermost one has a scope around it.

**The walk.** Whether a scope encloses another one is decided by a walk from the inner one outwards,
which goes on until it meets the scope it looks for or has left the outermost one (`Meets`). The
walk has no bound of its own. It ends because the numbers on its way decrease, and its answer is
`encloses`.

**The order.** So enclosing is a partial order with the outermost scope as its least element, and
the scopes that enclose one scope are linearly ordered. A later passage adds at most one scope, as a
leaf, and leaves the order of the scopes before it as it is.

Main statement: `formTree`.
-/

namespace PathQuery.Scopes

variable {t : Scopes} {a i p : Nat} {found : Bool}

/-! ## Opening and closing -/

/-- A way into a scope or out of one. -/
inductive Passage
  | enter
  | leave (i : Nat)
deriving DecidableEq, Repr

/-- The scopes after a passage. -/
def pass (t : Scopes) : Passage → Scopes
  | .enter => t.enter
  | .leave i => t.leave i

/-- The scopes after some passages, from the outermost scope alone. -/
def after (ps : List Passage) : Scopes := ps.foldl pass initial

theorem extends_pass (t : Scopes) (q : Passage) : t.Extends (t.pass q) := by
  cases q with
  | enter => exact t.extends_enter
  | leave i => exact t.extends_leave i

/-- Passages take no scope away and move none. -/
theorem extends_foldl_pass (t : Scopes) (qs : List Passage) : t.Extends (qs.foldl pass t) := by
  induction qs generalizing t with
  | nil => exact Extends.refl t
  | cons q qs ih => exact (t.extends_pass q).trans (ih (t.pass q))

theorem after_append (ps qs : List Passage) : after (ps ++ qs) = qs.foldl pass (after ps) := by
  simp [after]

theorem after_enter (ps : List Passage) : after (ps ++ [.enter]) = (after ps).enter := by
  rw [after_append]
  rfl

theorem after_leave (ps : List Passage) (i : Nat) :
    after (ps ++ [.leave i]) = (after ps).leave i := by
  rw [after_append]
  rfl

/-- There is one scope more than were opened. -/
theorem size_after (ps : List Passage) : (after ps).size = ps.count .enter + 1 := by
  induction ps using List.reverseRecOn with
  | nil => rfl
  | append_singleton ps q ih =>
    cases q with
    | enter => rw [after_enter, size_enter, ih]; simp
    | leave i => rw [after_leave, size_leave, ih]; simp

/-! ## The walk outwards -/

/-- Whether a walk that looks for a scope gives an answer from the scope that it has come to, or
from outside the outermost one. It asks no scope that was not issued. -/
inductive Meets (t : Scopes) (a : Nat) : Option Nat → Bool → Prop
  | here : Meets t a (some a) true
  | outside : Meets t a none false
  | outward {i : Nat} {found : Bool} (other : i ≠ a) (issued : i < t.size)
    (rest : Meets t a (t.outer? i) found) : Meets t a (some i) found

/-- The walk gives no second answer. -/
theorem Meets.unique {place : Option Nat} {other : Bool} (h : t.Meets a place found)
    (h' : t.Meets a place other) : found = other := by
  induction h with
  | here =>
    cases h' with
    | here => rfl
    | outward hne => exact absurd rfl hne
  | outside => cases h'; rfl
  | outward hne _ _ ih =>
    cases h' with
    | here => exact absurd rfl hne
    | outward _ _ hrest => exact ih hrest

theorem encloses_outermost (h : t.outer? i = none) (hne : i ≠ a) : t.encloses a i = false := by
  simp [encloses, enclosing_of_outermost h, Ne.symm hne]

theorem encloses_outward (h : t.outer? i = some p) (hne : i ≠ a) :
    t.encloses a i = t.encloses a p := by
  simp [encloses, enclosing_of_outer h, Ne.symm hne]

/-- The walk ends, since the scope around a scope has a smaller number. -/
theorem meets_encloses (a : Nat) (hi : i < t.size) : t.Meets a (some i) (t.encloses a i) := by
  induction i using Nat.strongRecOn with
  | ind i ih =>
    by_cases hia : i = a
    · subst hia
      rw [encloses_self]
      exact .here
    · apply Meets.outward hia hi
      cases hp : t.outer? i with
      | none =>
        rw [encloses_outermost hp hia]
        exact .outside
      | some p =>
        have hpi := outer?_lt hp
        rw [encloses_outward hp hia]
        exact ih p hpi (by omega)

theorem meets_iff (hi : i < t.size) : t.Meets a (some i) found ↔ found = t.encloses a i := by
  constructor
  · intro h
    exact h.unique (meets_encloses a hi)
  · intro h
    subst h
    exact meets_encloses a hi

/-! ## The order -/

/-- A scope encloses those from which links to the scope around lead to it. -/
theorem encloses_iff_reflTransGen :
    t.encloses a i = true ↔ Relation.ReflTransGen (fun j p => t.outer? j = some p) i a := by
  rw [encloses_iff]
  exact t.ancestry.mem_chain_iff_reflTransGen

/-- Of two scopes around one scope, one encloses the other. -/
theorem encloses_linear {b : Nat} (ha : t.encloses a i = true) (hb : t.encloses b i = true) :
    t.encloses a b = true ∨ t.encloses b a = true := by
  simp only [encloses_iff] at ha hb ⊢
  exact t.ancestry.mem_chain_linear ha hb

theorem outer?_eq_none_iff (hi : i < t.size) : t.outer? i = none ↔ i = 0 := by
  obtain ⟨s, hs⟩ := exists_scope?_of_lt hi
  constructor
  · intro h
    by_contra hne
    have hsome := t.outer_isSome i s hs (Nat.pos_of_ne_zero hne)
    rw [outer?, hs, Option.bind_some] at h
    simp [h] at hsome
  · intro h
    subst h
    cases hp : t.outer? 0 with
    | none => rfl
    | some p => exact absurd (outer?_lt hp) (Nat.not_lt_zero p)

/-- The outermost scope encloses all others. -/
theorem encloses_zero (hi : i < t.size) : t.encloses 0 i = true := by
  induction i using Nat.strongRecOn with
  | ind i ih =>
    cases hp : t.outer? i with
    | none =>
      rw [(outer?_eq_none_iff hi).1 hp]
      exact encloses_self t 0
    | some p =>
      have hpi := outer?_lt hp
      exact encloses_iff_outer.2 (Or.inr ⟨p, hp, ih p hpi (by omega)⟩)

/-- A scope that is opened has the current one around it. -/
theorem encloses_enter_iff : t.enter.encloses a t.size = true ↔
    a = t.size ∨ t.encloses a t.current = true := by
  have houter : t.enter.outer? t.size = some t.current := by simp [outer?_enter]
  rw [encloses_iff_outer, houter]
  simp [t.extends_enter.encloses_eq t.current_lt]

/-! ## All histories -/

/-- What passages make of the outermost scope. -/
structure FormsTree (ps : List Passage) : Prop where
  /-- There is the outermost scope and one for each time that one was opened. -/
  size : (after ps).size = ps.count .enter + 1
  /-- The scope around a scope was issued before it. -/
  outer_lt : ∀ i p, (after ps).outer? i = some p → p < i
  /-- Only the outermost scope has none around it. -/
  outer_none : ∀ i, i < (after ps).size → ((after ps).outer? i = none ↔ i = 0)
  /-- The walk that looks for a scope ends, and its one answer is whether the scope encloses the
  one that the walk starts from. -/
  ends : ∀ a i found, i < (after ps).size →
    ((after ps).Meets a (some i) found ↔ found = (after ps).encloses a i)
  /-- That is whether links to the scope around lead to it. -/
  encloses_iff : ∀ a i, (after ps).encloses a i = true ↔
    Relation.ReflTransGen (fun j p => (after ps).outer? j = some p) i a
  refl : ∀ i, (after ps).encloses i i = true
  trans : ∀ a b c, (after ps).encloses a b = true → (after ps).encloses b c = true →
    (after ps).encloses a c = true
  antisymm : ∀ a b, (after ps).encloses a b = true → (after ps).encloses b a = true → a = b
  least : ∀ i, i < (after ps).size → (after ps).encloses 0 i = true
  linear : ∀ a b i, (after ps).encloses a i = true → (after ps).encloses b i = true →
    (after ps).encloses a b = true ∨ (after ps).encloses b a = true
  /-- Whatever is opened and closed later, what encloses a scope stays what it was. -/
  settled : ∀ qs a i, i < (after ps).size →
    (after (ps ++ qs)).encloses a i = (after ps).encloses a i
  /-- A scope that is opened gets the next number and stands inside the current one. -/
  opened : ∀ a, (after (ps ++ [.enter])).current = (after ps).size ∧
    ((after (ps ++ [.enter])).encloses a (after ps).size = true ↔
      a = (after ps).size ∨ (after ps).encloses a (after ps).current = true)
  /-- When a scope is closed, the one around it is current. -/
  closed : ∀ i p, (after ps).outer? i = some p → (after (ps ++ [.leave i])).current = p

/-- **Scopes form a tree**, however they are opened and closed. -/
theorem formTree (ps : List Passage) : FormsTree ps where
  size := size_after ps
  outer_lt _ _ := outer?_lt
  outer_none _ := outer?_eq_none_iff
  ends _ _ _ := meets_iff
  encloses_iff _ _ := encloses_iff_reflTransGen
  refl := encloses_self _
  trans _ _ _ := encloses_trans
  antisymm _ _ := eq_of_encloses
  least _ := encloses_zero
  linear _ _ _ := encloses_linear
  settled qs a i hi := by
    rw [after_append]
    exact (extends_foldl_pass (after ps) qs).encloses_eq hi
  opened a := by
    rw [after_enter]
    exact ⟨current_enter _, encloses_enter_iff⟩
  closed i p hp := by
    rw [after_leave]
    exact current_leave hp

/-- A scope is closed while one inside it is current: what is opened next stands beside both. -/
example : let t := after [.enter, .enter, .leave 1, .enter]
    t.encloses 1 2 = true ∧ t.encloses 1 3 = false ∧ t.encloses 0 3 = true := by
  decide +kernel

end PathQuery.Scopes
