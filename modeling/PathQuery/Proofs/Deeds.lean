import PathQuery.Proofs.Invariant
import PathQuery.Query.Nesting

/-!
# What is done with restrictions

A query keeps a stack of open groups. A restriction goes to the innermost one, a sub-query puts all
of them aside, and what a failed body has collected is thrown away. A program nests instead: what it
does stands in the body of a group or of a sub-query.

**Deeds.** What a program does with restrictions is a forest: the restrictions that were completed,
and the bodies of groups and sub-queries with what was done in them. From a forest alone it can be
told what is added to the list that is open before it (`Deed.conditionsOf`) and to the `where` lists
of the scopes that are opened in it (`Deed.insideOf`).

**Placement** (`Query.Places`). What a query becomes by some deeds has what they add and nothing
else, and the same groups open in the same scope. The stack is hidden by this: for a body it is one
more group, or no group, and it is gone after the body.

Main statements: `Places.trans`, `places_addFilter`, `Places.group` and `Places.sub`.
-/

namespace PathQuery

/-! ## Deeds -/

/-- Something that was done with restrictions of the `where` list. -/
inductive Deed
  | restriction (c : Condition)
  | group (junction : Junction) (succeeded : Bool) (body : List Deed)
  | sub (scope : Nat) (body : List Deed)

namespace Deed

mutual

/-- What a deed adds to the list that is open: a restriction itself, and a group of what is added in
its body, if the body has succeeded and something is. -/
def conditions : Deed → List Condition
  | .restriction c => [c]
  | .group junction succeeded body =>
    if succeeded ∧ conditionsOf body ≠ [] then [.group junction (conditionsOf body)] else []
  | .sub _ _ => []

def conditionsOf : List Deed → List Condition
  | [] => []
  | d :: ds => d.conditions ++ conditionsOf ds

end

mutual

/-- What a deed adds to the `where` list of a scope that is opened in it. -/
def inside (s : Nat) : Deed → List Condition
  | .restriction _ => []
  | .group _ _ body => insideOf s body
  | .sub scope body => (if s = scope then conditionsOf body else []) ++ insideOf s body

def insideOf (s : Nat) : List Deed → List Condition
  | [] => []
  | d :: ds => d.inside s ++ insideOf s ds

end

@[simp] theorem conditionsOf_nil : conditionsOf [] = [] := rfl

@[simp] theorem insideOf_nil (s : Nat) : insideOf s [] = [] := rfl

@[simp] theorem conditionsOf_cons (d : Deed) (ds : List Deed) :
    conditionsOf (d :: ds) = d.conditions ++ conditionsOf ds := rfl

@[simp] theorem insideOf_cons (s : Nat) (d : Deed) (ds : List Deed) :
    insideOf s (d :: ds) = d.inside s ++ insideOf s ds := rfl

@[simp] theorem conditionsOf_append (ds es : List Deed) :
    conditionsOf (ds ++ es) = conditionsOf ds ++ conditionsOf es := by
  induction ds with
  | nil => rfl
  | cons d ds ih => simp [ih]

@[simp] theorem insideOf_append (s : Nat) (ds es : List Deed) :
    insideOf s (ds ++ es) = insideOf s ds ++ insideOf s es := by
  induction ds with
  | nil => rfl
  | cons d ds ih => simp [ih]

end Deed

/-! ## Placement -/

namespace Query

open Deed

/-- The `where` list of a scope. -/
def whereList (q : Query) (s : Nat) : List Condition :=
  ((q.clauses[s]?).map (·.restrictions)).getD []

/-- Whether every scope has its clauses. -/
def Aligned (q : Query) : Prop := q.clauses.length = q.scopes.size

/-- Whether a query is what certain deeds make of another one, as to where restrictions are. -/
structure Places (q : Query) (ds : List Deed) (q' : Query) : Prop where
  current : q'.current = q.current
  suspended : q'.suspended = q.suspended
  /-- As many groups are open, and the innermost one has the conditions after those it had. -/
  groups : q'.groups = q.groups.modifyHead (· ++ conditionsOf ds)
  /-- If none is open the current scope has them in its list. Another scope has what is done in it,
  after what it had. -/
  lists : ∀ s, q'.whereList s = q.whereList s ++
    (if s = q.current ∧ q.groups = [] then conditionsOf ds else []) ++ insideOf s ds
  /-- The scopes in which something is done are new. -/
  fresh : ∀ s, s < q.scopes.size → insideOf s ds = []
  scopes : q.scopes.Extends q'.scopes
  aligned : q.Aligned → q'.Aligned

variable {q q' q'' : Query} {ds es : List Deed}

theorem modifyHead_append_nil (groups : List (List Condition)) :
    groups.modifyHead (· ++ []) = groups := by
  cases groups <;> simp

namespace Places

/-- What leaves the open groups, the lists and the scopes as they are. -/
theorem of_same (hg : q'.groups = q.groups) (hsus : q'.suspended = q.suspended)
    (hcur : q'.current = q.current) (hlists : ∀ s, q'.whereList s = q.whereList s)
    (hscopes : q.scopes.Extends q'.scopes) (hsize : q'.scopes.size = q.scopes.size)
    (hlen : q'.clauses.length = q.clauses.length) : q.Places [] q' where
  current := hcur
  suspended := hsus
  groups := by rw [hg, conditionsOf_nil, modifyHead_append_nil]
  lists s := by simp [hlists s]
  fresh _ _ := rfl
  scopes := hscopes
  aligned ha := hlen.trans (ha.trans hsize.symm)

theorem refl (q : Query) : q.Places [] q :=
  .of_same rfl rfl rfl (fun _ => rfl) (.refl _) rfl rfl

theorem trans (h : q.Places ds q') (h' : q'.Places es q'') : q.Places (ds ++ es) q'' where
  current := h'.current.trans h.current
  suspended := h'.suspended.trans h.suspended
  groups := by
    rw [h'.groups, h.groups, conditionsOf_append]
    cases q.groups with
    | nil => rfl
    | cons g rest => simp
  lists s := by
    have hempty : q'.groups = [] ↔ q.groups = [] := by
      rw [h.groups]
      cases q.groups with
      | nil => simp
      | cons g rest => simp
    rw [h'.lists, h.lists, h.current, insideOf_append, conditionsOf_append]
    simp only [hempty]
    by_cases hs : s = q.current ∧ q.groups = []
    · -- The current scope is not new, so the first deeds do nothing inside it.
      obtain ⟨rfl, hnone⟩ := hs
      have hold : insideOf q.current ds = [] := h.fresh _ q.scopes.current_lt
      simp [hnone, hold]
    · simp [hs]
  fresh s hs := by
    rw [insideOf_append, h.fresh s hs, h'.fresh s (Nat.lt_of_lt_of_le hs h.scopes.size_le)]
    rfl
  scopes := h.scopes.trans h'.scopes
  aligned ha := h'.aligned (h.aligned ha)

/-- Only what deeds say counts. -/
theorem congr (h : q.Places ds q') (hc : conditionsOf es = conditionsOf ds)
    (hi : ∀ s, insideOf s es = insideOf s ds) : q.Places es q' where
  current := h.current
  suspended := h.suspended
  groups := by rw [hc, h.groups]
  lists s := by rw [hc, hi, h.lists]
  fresh s hs := by rw [hi, h.fresh s hs]
  scopes := h.scopes
  aligned := h.aligned

end Places

/-! ## Adding restrictions -/

theorem whereList_addRestriction (ha : q.Aligned) (c : Condition) (s : Nat) :
    (q.modifyClauses (·.addRestriction c)).whereList s =
      q.whereList s ++ if s = q.current then [c] else [] := by
  rw [whereList, clauses_modifyClauses, whereList]
  by_cases hs : s = q.current
  · have hlt : q.current < q.clauses.length := ha ▸ q.scopes.current_lt
    simp [hs, List.getElem?_eq_getElem hlt, Clauses.addRestriction]
  · simp [hs, Ne.symm hs]

/-- A restriction goes to the innermost group or, if none is open, to the current scope. -/
theorem places_addFilter (ha : q.Aligned) (c : Condition) :
    q.Places [.restriction c] (q.addFilter c) := by
  cases hg : q.groups with
  | nil =>
    have hadd : q.addFilter c = q.modifyClauses (·.addRestriction c) := by rw [addFilter, hg]
    rw [hadd]
    refine ⟨rfl, rfl, ?_, ?_, fun _ _ => rfl, .refl _, ?_⟩
    · rw [hg]
      exact hg
    · intro s
      rw [whereList_addRestriction ha, hg]
      simp [Deed.conditions, Deed.inside]
    · exact fun ha => (List.length_modify ..).trans ha
  | cons g rest =>
    have hadd : q.addFilter c = { q with groups := (g ++ [c]) :: rest } := by rw [addFilter, hg]
    rw [hadd]
    refine ⟨rfl, rfl, ?_, ?_, fun _ _ => rfl, .refl _, id⟩
    · rw [hg]
      rfl
    · intro s
      have hsame : whereList { q with groups := (g ++ [c]) :: rest } s = q.whereList s := rfl
      rw [hsame, hg]
      simp [Deed.inside]

/-! ## Bodies -/

/-- The body of a group collects in a list of its own, which is thrown away if it fails. -/
theorem Places.failedGroup (h : q.enterGroup.Places ds q') (junction : Junction) :
    q.Places [.group junction false ds] (q'.leaveGroup junction false) := by
  have hleave : q'.leaveGroup junction false = { q' with groups := q.groups } := by
    rw [leaveGroup, h.groups]
    rfl
  rw [hleave]
  have hnone : conditionsOf [.group junction false ds] = [] := by simp [Deed.conditions]
  refine ⟨h.current, h.suspended, ?_, ?_, ?_, h.scopes, h.aligned⟩
  · rw [hnone, modifyHead_append_nil]
  · intro s
    have hlist : q'.whereList s = q.whereList s ++ insideOf s ds := by
      have hbody := h.lists s
      rwa [if_neg (by rintro ⟨-, hg⟩; cases hg), List.append_nil] at hbody
    refine hlist.trans ?_
    rw [hnone]
    simp [Deed.inside]
  · intro s hs
    simpa [Deed.inside] using h.fresh s hs

/-- If it succeeds and has collected something, that is added as one group. -/
theorem Places.group (h : q.enterGroup.Places ds q') (ha : q.Aligned) (junction : Junction)
    (succeeded : Bool) :
    q.Places [.group junction succeeded ds] (q'.leaveGroup junction succeeded) := by
  have hfailed := h.failedGroup junction
  have hgroups : q'.groups = conditionsOf ds :: q.groups := h.groups
  have hclosed : q'.leaveGroup junction false = { q' with groups := q.groups } := by
    rw [leaveGroup, hgroups]
    rfl
  by_cases hadds : succeeded ∧ conditionsOf ds ≠ []
  · have hleave : q'.leaveGroup junction succeeded =
        (q'.leaveGroup junction false).addFilter (.group junction (conditionsOf ds)) := by
      rw [hclosed, leaveGroup, hgroups]
      exact if_pos hadds
    rw [hleave]
    refine (hfailed.trans (places_addFilter (hfailed.aligned ha) _)).congr ?_ ?_
    · simp [Deed.conditions, hadds]
    · simp [Deed.inside]
  · have hleave : q'.leaveGroup junction succeeded = q'.leaveGroup junction false := by
      rw [hclosed, leaveGroup, hgroups]
      exact if_neg hadds
    rw [hleave]
    refine hfailed.congr ?_ fun _ => rfl
    simp [Deed.conditions, hadds]

theorem whereList_enterSub (q : Query) (s : Nat) : q.enterSub.whereList s = q.whereList s := by
  rw [whereList, whereList, enterSub]
  dsimp only
  rcases Nat.lt_trichotomy s q.clauses.length with hs | rfl | hs
  · rw [List.getElem?_append_left hs]
  · simp [Clauses.empty]
  · rw [List.getElem?_eq_none (by simp; omega), List.getElem?_eq_none (Nat.le_of_lt hs)]

theorem Aligned.enterSub (ha : q.Aligned) : q.enterSub.Aligned := by
  have ha : q.clauses.length = q.scopes.size := ha
  simp [Aligned, Query.enterSub, ha]

/-- The body of a sub-query works in a scope of its own, and the open groups come back after it. -/
theorem Places.sub (h : q.enterSub.Places ds q') :
    q.Places [.sub q.scopes.size ds] (q'.leaveSub q.scopes.size) := by
  have hopened : q.scopes.size < q.scopes.enter.size := by simp
  have houter : q'.scopes.outer? q.scopes.size = some q.current := by
    rw [h.scopes.outer?_eq hopened]
    exact (q.scopes.outer?_enter _).trans (if_pos rfl)
  have hnone : conditionsOf [.sub q.scopes.size ds] = [] := rfl
  refine ⟨Scopes.current_leave houter, ?_, ?_, ?_, ?_, ?_, ?_⟩
  · rw [leaveSub, h.suspended]
    rfl
  · rw [leaveSub, h.suspended, hnone, modifyHead_append_nil]
    rfl
  · intro s
    have hbody := h.lists s
    rw [whereList_enterSub] at hbody
    refine Eq.trans hbody ?_
    rw [hnone]
    have hcur : q.enterSub.current = q.scopes.size := rfl
    have hgroups : q.enterSub.groups = [] := rfl
    simp [Deed.inside, hcur, hgroups]
  · intro s hs
    have hne : s ≠ q.scopes.size := Nat.ne_of_lt hs
    simp [Deed.inside, hne, h.fresh s (Nat.lt_trans hs hopened)]
  · exact (q.scopes.extends_enter.trans h.scopes).trans (q'.scopes.extends_leave _)
  · exact fun ha => (h.aligned ha.enterSub).trans (q'.scopes.size_leave _).symm

end Query

end PathQuery
