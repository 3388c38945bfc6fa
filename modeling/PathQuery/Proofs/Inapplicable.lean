import PathQuery.Proofs.Rendered
import PathQuery.Proofs.Style
import PathQuery.Schema.Sample

/-!
# Conditions that do not apply

A condition that does not apply leaves no token, and a group that it is in applies as it did
without. So the list that it is in has the same parts, and so has every list around that.

**Insertion.** A condition is inserted in a list of conditions at any position, of the list itself
or of a group in it, however deep (`Condition.InsertedIn`); in the clauses of a scope it is inserted
in the `where` list or in the conditions of a join (`Clauses.Inserted`). Whether it applies depends
on the bindings only, so nothing is asked of the rest of the query.

Main statement: `Query.Inserts.compile_unaffected`.
-/

namespace PathQuery

/-! ## Lists of conditions -/

/-- Whether a list of conditions is another one with a condition inserted: between two members, or
in a group that is a member. -/
inductive Condition.InsertedIn (x : Condition) : List Condition → List Condition → Prop
  | here (before after : List Condition) : InsertedIn x (before ++ after) (before ++ x :: after)
  | inside (before after : List Condition) (j : Junction) {members members' : List Condition}
    (h : InsertedIn x members members') :
    InsertedIn x (before ++ .group j members :: after) (before ++ .group j members' :: after)

namespace Condition

variable {b : Bindings} {x : Condition} {cs cs' : List Condition}

theorem anyApplies_append (b : Bindings) (cs cs' : List Condition) :
    anyApplies b (cs ++ cs') = (anyApplies b cs || anyApplies b cs') := by
  induction cs with
  | nil => simp [anyApplies]
  | cons c cs ih => simp [anyApplies, ih, Bool.or_assoc]

theorem parts_append (b : Bindings) (cs cs' : List Condition) :
    parts b (cs ++ cs') = parts b cs ++ parts b cs' := by
  induction cs with
  | nil => simp [parts]
  | cons c cs ih =>
    rw [List.cons_append, parts, parts, ih]
    split
    · rfl
    · rfl

/-- A list with a condition that does not apply applies as it does without. -/
theorem InsertedIn.anyApplies_eq (h : InsertedIn x cs cs') (hx : x.applies b = false) :
    anyApplies b cs' = anyApplies b cs := by
  induction h with
  | here before after => simp [anyApplies_append, anyApplies, hx]
  | inside before after j _ ih => simp [anyApplies_append, anyApplies, applies, ih]

/-- It has the same parts. A group that the condition is in keeps its place, its parentheses and its
separators, since these depend on its parts. -/
theorem InsertedIn.parts_eq (h : InsertedIn x cs cs') (hx : x.applies b = false) :
    parts b cs' = parts b cs := by
  induction h with
  | here before after => simp [parts_append, parts, hx]
  | inside before after j h ih =>
    rw [parts_append, parts_append, parts, parts, applies, applies, h.anyApplies_eq hx, tokens,
      tokens, ih]

end Condition

/-! ## Clauses -/

/-- Whether clauses are other ones with a condition inserted in the `where` list, or in the list of
conditions of one join. -/
inductive Clauses.Inserted (x : Condition) (c : Clauses) : Clauses → Prop
  | restriction {l : List Condition} (h : x.InsertedIn c.restrictions l) :
    Inserted x c { c with restrictions := l }
  | onJoin {js : List (Nat × Condition)} (node : Nat)
    (h : x.InsertedIn (c.conditionsFor node) (conditionsFor { c with joinConditions := js } node))
    (others : ∀ i, i ≠ node →
      conditionsFor { c with joinConditions := js } i = c.conditionsFor i) :
    Inserted x c { c with joinConditions := js }

/-- Any list that comes from the conditions of a join by an insertion is that of some clauses. -/
theorem Clauses.exists_inserted_onJoin {x : Condition} {c : Clauses} {node : Nat}
    {l : List Condition} (h : x.InsertedIn (c.conditionsFor node) l) :
    ∃ c', c.Inserted x c' ∧ c'.conditionsFor node = l := by
  have hown : conditionsFor { c with
      joinConditions := c.joinConditions.filter (·.1 != node) ++ l.map (node, ·) } node = l := by
    simp [conditionsFor, List.filter_filter, List.filter_map, Function.comp_def]
  refine ⟨_, .onJoin node (hown.symm ▸ h) ?_, hown⟩
  intro i hi
  have hnode : (node == i) = false := by simpa using Ne.symm hi
  have hkeep : ∀ y : Nat × Condition, (y.1 == i && y.1 != node) = (y.1 == i) := by
    intro y
    by_cases hy : y.1 = i
    · simp [hy, hi]
    · simp [hy]
  simp [conditionsFor, List.filter_filter, List.filter_map, Function.comp_def, hnode, hkeep]

namespace Draft

variable {d : Draft} {x : Condition} {c c' : Clauses}

theorem conditionsFragment_eq {cs cs' : List Condition} (h : x.InsertedIn cs cs')
    (hx : x.applies d.bindings = false) (sub : Nat → Fragment) (keyword : String) :
    d.conditionsFragment sub keyword cs' = d.conditionsFragment sub keyword cs := by
  rw [conditionsFragment, conditionsFragment, conjunction, conjunction, h.parts_eq hx]

/-- A scope whose joins have the same conditions in their texts has the same `from` list. -/
theorem sourceFragment_eq {sub : Nat → Fragment}
    (h : ∀ i, d.conditionsFragment sub " with " (c'.conditionsFor i) =
      d.conditionsFragment sub " with " (c.conditionsFor i)) (s : Nat) :
    d.sourceFragment sub s c' = d.sourceFragment sub s c := by
  have hjoin : d.joinFragment sub s c' = d.joinFragment sub s c := by
    funext i
    rw [joinFragment, joinFragment, h i]
  have hroot : d.rootFragment sub s c' = d.rootFragment sub s c := by
    funext root
    rw [rootFragment, rootFragment, hjoin]
  rw [sourceFragment, sourceFragment, hjoin, hroot]

/-- A scope is rendered as it is without the condition. -/
theorem sectionsWith_eq (h : c.Inserted x c') (hx : x.applies d.bindings = false)
    (sub : Nat → Fragment) (s : Nat) : d.sectionsWith sub s c' = d.sectionsWith sub s c := by
  cases h with
  | restriction h =>
    rw [sectionsWith, sectionsWith]
    dsimp only
    rw [conditionsFragment_eq h hx]
    rfl
  | onJoin node h others =>
    rw [sectionsWith, sectionsWith, sourceFragment_eq]
    · rfl
    · intro i
      by_cases hi : i = node
      · rw [hi, conditionsFragment_eq h hx]
      · rw [others i hi]

/-! ## Drafts -/

/-- Whether a draft is another one with a condition inserted in the clauses of a scope. -/
inductive Inserts (x : Condition) (d : Draft) : Draft → Prop
  | clauses (s : Nat) {c c' : Clauses} (hc : d.clauses[s]? = some c) (h : c.Inserted x c') :
    Inserts x d { d with clauses := d.clauses.set s c' }

namespace Inserts

variable {d' : Draft}

/-- Every scope is rendered as it is without the condition, and so are the sub-queries in it. -/
theorem sections_eq (h : d.Inserts x d') (hx : x.applies d.bindings = false) :
    ∀ fuel s, d'.sections fuel s = d.sections fuel s := by
  cases h with
  | @clauses k c c' hc h =>
    -- The scope with the new clauses may stand in any other one, at any depth.
    intro fuel
    induction fuel with
    | zero => exact fun _ => rfl
    | succ fuel ih =>
      intro s
      have hsub : (fun i => (sections { d with clauses := d.clauses.set k c' } fuel i).fragment) =
          fun i => (d.sections fuel i).fragment := funext fun i => by rw [ih i]
      by_cases hs : s = k
      · subst hs
        have hlt : s < d.clauses.length := (List.getElem?_eq_some_iff.1 hc).1
        have hc' : (d.clauses.set s c')[s]? = some c' := List.getElem?_set_self hlt
        rw [sections_succ (d := { d with clauses := d.clauses.set s c' }) hc',
          sections_succ hc, hsub, ← sectionsWith_eq h hx]
        rfl
      · have hget : (d.clauses.set k c')[s]? = d.clauses[s]? := List.getElem?_set_ne (Ne.symm hs)
        rw [sections, sections]
        dsimp only
        rw [hget, hsub]
        rfl

/-- The shape of a row depends on the select list only. -/
theorem shape_eq (h : d.Inserts x d') : d'.shape = d.shape := by
  cases h with
  | @clauses k c c' hc h =>
    by_cases hk : k = 0
    · subst hk
      have hlt : 0 < d.clauses.length := (List.getElem?_eq_some_iff.1 hc).1
      have hprojections : c'.projections = c.projections := by
        cases h with
        | restriction | onJoin => rfl
      rw [shape, shape, hc]
      dsimp only
      rw [List.getElem?_set_self hlt]
      dsimp only
      rw [hprojections]
    · rw [shape, shape]
      dsimp only
      rw [List.getElem?_set_ne hk]

theorem compile_eq (h : d.Inserts x d') (hx : x.applies d.bindings = false)
    (style : ParameterStyle) : d'.compile style = d.compile style := by
  have hrendered : d'.rendered = d.rendered := by
    have hsections := h.sections_eq hx
    cases h with
    | clauses => exact hsections _ 0
  have hnames : d'.bindings = d.bindings := by
    cases h with
    | clauses => rfl
  rw [compile, compile, hrendered, hnames, h.shape_eq]

end Inserts

end Draft

/-! ## Queries -/

namespace Query

/-- Whether a query is another one with a condition inserted in the clauses of a scope. -/
def Inserts (x : Condition) (q q' : Query) : Prop :=
  ∃ d, q.toDraft.Inserts x d ∧ q' = { q with toDraft := d }

/-- The query with other values of its named parameters. -/
def withBindings (q : Query) (b : Bindings) : Query := { q with bindings := b }

variable {q q' : Query} {x : Condition}

/-- **Conditions that do not apply.** A query compiles as it does without a condition that does not
apply under the bindings, in every style: to the same sections, parameters and shape, or to the
same error. -/
theorem Inserts.compile_unaffected (h : q.Inserts x q') (b : Bindings) (hx : x.applies b = false)
    (style : ParameterStyle) :
    ((q'.withBindings b).withStyle style).compile =
      ((q.withBindings b).withStyle style).compile := by
  obtain ⟨d, hd, rfl⟩ := h
  have hgraph : d.graph = q.graph := by
    cases hd with
    | clauses => rfl
  have hbound : Draft.Inserts x (q.withBindings b).toDraft { d with bindings := b } := by
    cases hd with
    | clauses s hc h => exact .clauses s hc h
  have hpaths : q.pending.nodes.map d.graph.describe = q.pending.nodes.map q.graph.describe := by
    rw [hgraph]
  unfold compile
  split
  · next hempty => exact (hbound.compile_eq hx style).trans (if_pos hempty).symm
  · next hempty =>
    exact (congrArg (fun paths => Except.error (Error.danglingAccess paths)) hpaths).trans
      (if_neg hempty).symm

end Query

namespace Stage

/-- The test of a name. -/
def nameTest : Condition := .test .always (.compare (.node 1) .eq (.value (.string "Ann")))

/-- A test of raw text that has no value for its mark, unless a parameter is null. -/
def malformedTest : Condition :=
  .test .notNull (.compare (.expression (.raw "age > ?" [])) .eq (.parameter "limit"))

/-- A query with a group that holds the test of a name and what some more events add. -/
def sampleGroup (more : List Event) : Stage :=
  (start Sample.registry .default).run
    ([.call (.addFrom "Person"), .enterGroup .or, .call (.access ⟨0, .root⟩ "name"),
      .call (.restrict (.filter ⟨1, .property⟩) .always (.compareValue .eq (.string "Ann")))] ++
        more ++ [.leaveGroup true])

/-- The call that adds the malformed test. -/
def restrictMalformed : Event :=
  .call (.restrict (.expression (.raw "age > ?" [])) .notNull (.compareParameter .eq "limit"))

/-- The malformed test may stand in the group as long as the parameter is not bound. -/
theorem sampleGroup_inserts : (sampleGroup [restrictMalformed]).Reachable ∧
    (sampleGroup []).query.Inserts malformedTest (sampleGroup [restrictMalformed]).query ∧
    malformedTest.applies [] = false ∧
    (((sampleGroup [restrictMalformed]).query.withBindings []).withStyle .numbered).compile =
      (((sampleGroup []).query.withBindings []).withStyle .numbered).compile ∧
    (sampleGroup [restrictMalformed]).query.compile.map (·.text) =
      .ok "from Person hobj1 where hobj1.name = ?" ∧
    (((sampleGroup [restrictMalformed]).query.withBindings [("limit", .int 3)]).compile.map
      (·.text)) = .error (.markerCount "age > ?" 1 0) := by
  have hc : (sampleGroup []).query.clauses[0]? =
      some { Clauses.empty with restrictions := [.group .or [nameTest]] } := rfl
  have hinserts : (sampleGroup []).query.Inserts malformedTest
      (sampleGroup [restrictMalformed]).query :=
    ⟨_, .clauses 0 hc (.restriction (.inside [] [] .or (.here [nameTest] []))), rfl⟩
  have hx : malformedTest.applies [] = false := rfl
  have hsame := Query.Inserts.compile_unaffected hinserts [] hx .numbered
  exact ⟨reachable_start _ _ _, hinserts, hx, hsame, by decide +kernel, by decide +kernel⟩

end Stage

end PathQuery
