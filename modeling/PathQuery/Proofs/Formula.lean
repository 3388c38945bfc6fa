import Mathlib.Data.List.Chain
import PathQuery.Condition

/-!
# Reading boolean structures

How the text of conditions is read: parentheses first, `and` before `or`.

    factor      = atom | '(' disjunction ')'
    conjunction = factor | factor 'and' conjunction
    disjunction = conjunction | conjunction 'or' disjunction

A list of tokens is read as a *formula* (`Reads`). The two rules for chains are one rule for each
junction, which takes the level below for its links.

**One reading.** A phrase ends where what follows cannot go on with it: a factor ends by itself, a
conjunction before anything but `and`, a disjunction before anything but a junction. So two phrases
of one level at the start of the same tokens are the same (`Reads.unique`), and a list of tokens has
one reading at most (`Reads.eq`).

Main statements: `Reads.eq` and `Reads.not_opening_closing`.
-/

namespace PathQuery

/-- A formula over atoms. -/
inductive Formula (α : Type)
  | atom (a : α)
  | junction (j : Junction) (f g : Formula α)
deriving DecidableEq, Repr

/-- The truth value of several together. -/
def Junction.combine : Junction → List Bool → Bool
  | .and, bs => bs.all id
  | .or, bs => bs.any id

/-- The truth value of a formula under an assignment. -/
def Formula.holds {α : Type} (v : α → Bool) : Formula α → Bool
  | .atom a => v a
  | .junction j f g => j.combine [f.holds v, g.holds v]

/-- The levels of the grammar. A chain of `and` is a conjunction, a chain of `or` a disjunction. -/
inductive Level
  | factor
  | chain (j : Junction)
deriving DecidableEq, Repr

namespace Level

/-- The level of the links of a chain. -/
def links : Junction → Level
  | .and => .factor
  | .or => .chain .and

/-- Whether a phrase of a level may go on with a junction. -/
def goesOn : Level → Junction → Bool
  | .factor, _ => false
  | .chain .and, j => j == .and
  | .chain .or, _ => true

end Level

variable {α : Type}

/-- Whether tokens are a phrase of a level, and for which formula. -/
inductive Reads : Level → List (Token α) → Formula α → Prop
  | atom (a : α) : Reads .factor [.atom a] (.atom a)
  | parens {ts f} (h : Reads (.chain .or) ts f) : Reads .factor (.opening :: ts ++ [.closing]) f
  | single {j ts f} (h : Reads (Level.links j) ts f) : Reads (.chain j) ts f
  | link {j ts us f g} (first : Reads (Level.links j) ts f) (rest : Reads (.chain j) us g) :
    Reads (.chain j) (ts ++ .junction j :: us) (.junction j f g)

/-- Whether a phrase of a level ends before what follows. -/
def Level.EndsBefore (l : Level) (rest : List (Token α)) : Prop :=
  ∀ j, l.goesOn j = true → rest.head? ≠ some (.junction j)

namespace Level

variable {j : Junction} {rest : List (Token α)}

theorem endsBefore_nil (l : Level) : l.EndsBefore ([] : List (Token α)) := nofun

theorem endsBefore_closing (l : Level) : l.EndsBefore (.closing :: rest) := nofun

/-- A link ends before the junction of its chain. -/
theorem endsBefore_junction : (links j).EndsBefore (.junction j :: rest) := by
  intro k hk heq
  cases heq
  cases j <;> cases hk

theorem EndsBefore.links (h : (Level.chain j).EndsBefore rest) :
    (Level.links j).EndsBefore rest := by
  cases j with
  | and => nofun
  | or => exact fun k _ => h k rfl

/-- A chain does not end before its own junction. -/
theorem not_endsBefore_junction : ¬ (Level.chain j).EndsBefore (.junction j :: rest) := by
  intro h
  refine h j ?_ rfl
  cases j <;> rfl

end Level

namespace Reads

variable {l : Level} {j : Junction} {ts us : List (Token α)} {f g : Formula α}

/-! ## One reading -/

/-- Two phrases of one level that end at the start of the same tokens are the same. -/
theorem unique (h : Reads l ts f) {us r r' : List (Token α)} {g : Formula α} (h' : Reads l us g)
    (heq : ts ++ r = us ++ r') (hr : l.EndsBefore r) (hr' : l.EndsBefore r') : ts = us ∧ f = g := by
  induction h generalizing us r r' g with
  | atom a =>
    cases h' with
    | atom b =>
      cases heq
      exact ⟨rfl, rfl⟩
    | parens h' => cases heq
  | parens h ih =>
    cases h' with
    | atom b => cases heq
    | parens h' =>
      simp only [List.cons_append, List.append_assoc, List.cons.injEq, true_and] at heq
      obtain ⟨rfl, rfl⟩ := ih h' heq (Level.endsBefore_closing _) (Level.endsBefore_closing _)
      exact ⟨rfl, rfl⟩
  | single h ih =>
    cases h' with
    | single h' => exact ih h' heq hr.links hr'.links
    | link first rest =>
      -- The phrase that is one link would end before the junction after the first link.
      rw [List.append_assoc] at heq
      obtain ⟨rfl, -⟩ := ih first heq hr.links Level.endsBefore_junction
      rw [List.append_cancel_left heq] at hr
      exact absurd hr Level.not_endsBefore_junction
  | link first rest ih ih' =>
    rw [List.append_assoc] at heq
    cases h' with
    | single h' =>
      obtain ⟨rfl, -⟩ := ih h' heq Level.endsBefore_junction hr'.links
      rw [← List.append_cancel_left heq] at hr'
      exact absurd hr' Level.not_endsBefore_junction
    | link first' rest' =>
      rw [List.append_assoc] at heq
      obtain ⟨rfl, rfl⟩ := ih first' heq Level.endsBefore_junction Level.endsBefore_junction
      have hrest := List.append_cancel_left heq
      rw [List.cons_append, List.cons_append, List.cons.injEq] at hrest
      obtain ⟨rfl, rfl⟩ := ih' rest' hrest.2 hr hr'
      exact ⟨rfl, rfl⟩

/-- **One reading.** Tokens are read as one formula at most. -/
theorem eq (h : Reads l ts f) (h' : Reads l ts g) : f = g := by
  have hends : l.EndsBefore ([] : List (Token α)) := l.endsBefore_nil
  exact (h.unique h' rfl hends hends).2

/-! ## Chains -/

/-- A factor can be a link of any chain. -/
theorem link_of_factor (h : Reads .factor ts f) (j : Junction) : Reads (Level.links j) ts f := by
  cases j with
  | and => exact h
  | or => exact .single h

/-- Any chain can stand in parentheses. -/
theorem disjunction (h : Reads (.chain j) ts f) : Reads (.chain .or) ts f := by
  cases j with
  | and => exact .single h
  | or => exact h

/-- Factors with a junction between each two of them are read as their combination. -/
theorem exists_chain {parts : List (List (Token α))} {fs : List (Formula α)}
    (h : List.Forall₂ (Reads .factor) parts fs) (hne : parts ≠ []) (j : Junction) :
    ∃ f, Reads (.chain j) (List.intercalate [.junction j] parts) f ∧
      ∀ v, f.holds v = j.combine (fs.map (·.holds v)) := by
  induction h with
  | nil => exact absurd rfl hne
  | @cons ts f parts fs hfirst hrest ih =>
    cases hrest with
    | nil =>
      refine ⟨f, ?_, fun v => ?_⟩
      · rw [List.intercalate_singleton]
        exact .single (hfirst.link_of_factor j)
      · cases j <;> simp [Junction.combine]
    | @cons us g parts fs hnext hrest =>
      obtain ⟨g', hg, hholds⟩ := ih (List.cons_ne_nil _ _)
      refine ⟨.junction j f g', ?_, fun v => ?_⟩
      · rw [List.intercalate_cons_cons]
        simpa using Reads.link (hfirst.link_of_factor j) hg
      · rw [Formula.holds, hholds]
        cases j <;> simp [Junction.combine]

/-! ## Parentheses -/

/-- A phrase neither starts with a closing parenthesis nor ends with an opening one. -/
theorem ends (h : Reads l ts f) :
    ts ≠ [] ∧ ts.head? ≠ some .closing ∧ ts.getLast? ≠ some .opening := by
  induction h with
  | atom a => exact ⟨nofun, nofun, nofun⟩
  | parens h ih =>
    refine ⟨nofun, nofun, ?_⟩
    rw [List.getLast?_concat]
    nofun
  | single h ih => exact ih
  | @link j ts us f g first rest ih ih' =>
    obtain ⟨hne, hhead, -⟩ := ih
    obtain ⟨hne', -, hlast⟩ := ih'
    refine ⟨by simp, ?_, ?_⟩
    · rwa [List.head?_append_of_ne_nil _ hne]
    · rwa [List.getLast?_append_of_ne_nil _ (List.cons_ne_nil _ _),
        List.getLast?_cons_of_ne_nil hne']

end Reads

end PathQuery
