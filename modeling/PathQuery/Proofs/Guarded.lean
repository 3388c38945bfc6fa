import PathQuery.Proofs.Active
import PathQuery.Proofs.Reachable
import PathQuery.Schema.Sample

/-!
# What guards look at

A guard asks about the values that a test tests against. An operand *carries* a value if it is that
value, or a named parameter, which carries what it is bound to and null if it is not bound. Nodes
and expressions carry nothing: what they stand for is known to the database alone.

**One value at a time.** A comparison and a range are rendered under `notNull` or `notEmpty` exactly
if none of the values they carry is null or empty (`applies_iff`). What is then written for such an
operand is a slot for its value, so a test guarded by `notNull` binds no null in its place.

**A list at once.** The candidates of a list are one value, the list of the values that they carry.
It is never null, whatever the candidates are, and it is empty only if they carry nothing.

In a list of conditions the tests are rendered in their order, each exactly if it applies under its
own guard, however deep it stands in groups (`atoms_conjunction_eq`).

Main statement: `guardsValues`.
-/

namespace PathQuery

variable {b : Bindings} {g : Graph} {guard : Guard} {t : Test} {o : Operand Nat} {v : Value}

/-! ## Values that operands carry -/

/-- Whether an operand stands for a value by itself. -/
inductive Operand.Carries (b : Bindings) : Operand Nat → Value → Prop
  | value (v : Value) : Carries b (.value v) v
  | bound {name : String} {v : Value} (h : b.get? name = some v) : Carries b (.parameter name) v
  /-- A parameter that is not bound counts as null. -/
  | unbound {name : String} (h : b.get? name = none) : Carries b (.parameter name) .null

theorem Operand.resolve?_eq_some_iff : o.resolve? b = some v ↔ o.Carries b v := by
  cases o with
  | value w =>
    constructor
    · intro h
      cases h
      exact .value v
    · intro h
      cases h
      rfl
  | parameter name =>
    cases hb : b.get? name with
    | some w =>
      constructor
      · intro h
        have hw : w = v := by simpa [resolve?, hb] using h
        exact hw ▸ .bound hb
      · intro h
        cases h with
        | bound h => simp [resolve?, h]
        | unbound h => simp [hb] at h
    | none =>
      constructor
      · intro h
        have hv : Value.null = v := by simpa [resolve?, hb] using h
        exact hv ▸ .unbound hb
      · intro h
        cases h with
        | bound h => simp [hb] at h
        | unbound h => simp [resolve?, h]
  | node | expression =>
    constructor
    · intro h
      cases h
    · intro h
      cases h

/-- An operand that carries a value other than null is written as a slot for it. -/
theorem Operand.Carries.fragment_eq (h : o.Carries b v) (hv : v.isNull = false) (g : Graph) :
    ∃ name, o.fragment g b = [.slot name v] := by
  cases h with
  | value => exact ⟨none, by rw [fragment]⟩
  | @bound name _ hb => exact ⟨some name, by rw [fragment, hb]⟩
  | unbound => cases hv

/-- A slot that is written for an operand other than an expression is for the value it carries. -/
theorem Operand.carries_of_slot {name : Option String} (ho : ∀ e, o ≠ .expression e)
    (h : .slot name v ∈ o.fragment g b) : o.Carries b v := by
  cases o with
  | node i =>
    rw [fragment, Graph.nodeFragment] at h
    split at h <;> simp at h
  | value w =>
    rw [fragment] at h
    cases List.mem_singleton.1 h
    exact .value v
  | parameter p =>
    rw [fragment] at h
    split at h
    · next w hb =>
      cases List.mem_singleton.1 h
      exact .bound hb
    · simp at h
  | expression e => exact absurd rfl (ho e)

/-! ## Values that guards look at -/

namespace Test

/-- The operands that a test tests against. -/
def tested : Test → List (Operand Nat)
  | .compare _ _ right => [right]
  | .between _ low high => [low, high]
  | .oneOf _ candidates _ => candidates
  | .inSub .. | .hasRows .. | .isNull .. => []

/-- Whether a test is against a list of candidates. -/
def isOneOf : Test → Bool
  | .oneOf .. => true
  | _ => false

theorem guarded_eq (h : t.isOneOf = false) : t.guarded b = t.tested.filterMap (·.resolve? b) := by
  cases t with
  | compare left op right => cases hr : right.resolve? b <;> simp [guarded, tested, hr]
  | between | inSub | hasRows | isNull => rfl
  | oneOf => cases h

theorem mem_guarded (h : t.isOneOf = false) :
    v ∈ t.guarded b ↔ ∃ o ∈ t.tested, o.Carries b v := by
  simp only [guarded_eq h, List.mem_filterMap, Operand.resolve?_eq_some_iff]

/-- A test is rendered if its guard accepts all the values that it looks at. -/
theorem applies_iff_forall :
    t.applies b guard = true ↔ ∀ v ∈ t.guarded b, guard.accepts v = true := by
  rw [applies, Bool.or_eq_true, List.all_eq_true]
  constructor
  · intro h v hv
    rcases h with h | h
    · exact Guard.accepts_of_isAlways h v
    · exact h v hv
  · intro h
    exact Or.inr h

/-- **A guard looks at every value that is tested against**, unless they are candidates. -/
theorem applies_iff (h : t.isOneOf = false) : t.applies b guard = true ↔
    ∀ o ∈ t.tested, ∀ v, o.Carries b v → guard.accepts v = true := by
  rw [applies_iff_forall]
  simp only [mem_guarded h]
  constructor
  · intro hall o ho v hv
    exact hall v ⟨o, ho, hv⟩
  · intro hall v hv
    obtain ⟨o, ho, hv⟩ := hv
    exact hall o ho v hv

/-- **A guard looks at candidates as one list**, of the values that they carry. -/
theorem applies_oneOf (operand : Operand Nat) (candidates : List (Operand Nat)) (negated : Bool) :
    (oneOf operand candidates negated).applies b guard = true ↔
      guard.accepts (.list (candidates.filterMap (·.resolve? b))) = true := by
  rw [applies_iff_forall, guarded]
  simp

end Test

/-! ## Tests in groups -/

mutual

/-- The tests of a condition, each with its own guard. -/
def Condition.guards : Condition → List (Guard × Test)
  | .test guard t => [(guard, t)]
  | .group _ members => Condition.guardsOf members

def Condition.guardsOf : List Condition → List (Guard × Test)
  | [] => []
  | c :: cs => c.guards ++ Condition.guardsOf cs

end

/-- The tests that apply under their own guards. -/
def applying (b : Bindings) (ts : List (Guard × Test)) : List Test :=
  (ts.filter fun x => x.2.applies b x.1).map (·.2)

theorem applying_append (ts ts' : List (Guard × Test)) :
    applying b (ts ++ ts') = applying b ts ++ applying b ts' := by
  rw [applying, List.filter_append, List.map_append, applying, applying]

mutual

theorem Condition.active_eq : (c : Condition) → c.active b = applying b c.guards
  | .test guard t => by
    rw [Condition.active, Condition.guards, applying]
    by_cases h : t.applies b guard = true <;> simp [h]
  | .group _ members => by
    rw [Condition.active, Condition.guards]
    exact Condition.activeOf_eq members

theorem Condition.activeOf_eq : (cs : List Condition) →
    Condition.activeOf b cs = applying b (Condition.guardsOf cs)
  | [] => rfl
  | c :: cs => by
    rw [Condition.activeOf, Condition.guardsOf, applying_append, c.active_eq,
      Condition.activeOf_eq cs]

end

/-- **Emission.** The tests of a list of conditions are rendered in their order, each exactly if it
applies under its own guard. -/
theorem atoms_conjunction_eq (b : Bindings) (cs : List Condition) :
    atoms (conjunction b cs) = applying b (Condition.guardsOf cs) := by
  rw [atoms_conjunction, Condition.activeOf_eq]

/-! ## The guards -/

/-- What guards ask of the values of a query under some bindings. -/
structure GuardsValues (b : Bindings) : Prop where
  /-- Under `notNull` a comparison or a range is rendered exactly if no value it tests against is
  null. -/
  notNull : ∀ t : Test, t.isOneOf = false → (t.applies b .notNull = true ↔
    ∀ o ∈ t.tested, ∀ v, o.Carries b v → v.isNull = false)
  /-- Under `notEmpty` it is rendered exactly if none is null or empty. -/
  notEmpty : ∀ t : Test, t.isOneOf = false → (t.applies b .notEmpty = true ↔
    ∀ o ∈ t.tested, ∀ v, o.Carries b v → v.isNull = false ∧ v.isEmpty = false)
  /-- A list of candidates is no null, whatever they are. -/
  oneOf_notNull : ∀ operand candidates negated,
    (Test.oneOf operand candidates negated).applies b .notNull = true
  /-- A list of candidates is not empty exactly if one of them carries a value. -/
  oneOf_notEmpty : ∀ operand candidates negated,
    ((Test.oneOf operand candidates negated).applies b .notEmpty = true ↔
      ∃ c ∈ candidates, ∃ v, c.Carries b v)
  /-- A test that has no candidates and carries no value is rendered under every guard. -/
  valueless : ∀ (guard : Guard) (t : Test), t.isOneOf = false →
    (∀ o ∈ t.tested, ∀ v, ¬ o.Carries b v) → t.applies b guard = true
  /-- The tests of a list of conditions are rendered in their order, each exactly if it applies. -/
  emits : ∀ cs, atoms (conjunction b cs) = applying b (Condition.guardsOf cs)
  /-- What a comparison or a range carries is bound when it is rendered under `notNull`, and it is
  not null. -/
  binds : ∀ g (t : Test), t.isOneOf = false → t.applies b .notNull = true →
    ∀ o ∈ t.tested, ∀ v, o.Carries b v →
      v.isNull = false ∧ ∃ name, o.fragment g b = [.slot name v]
  /-- So no null is bound where it tests against anything but an expression. -/
  bindsNoNull : ∀ g (t : Test), t.isOneOf = false → t.applies b .notNull = true →
    ∀ o ∈ t.tested, (∀ e, o ≠ .expression e) →
      ∀ name v, .slot name v ∈ o.fragment g b → v.isNull = false

theorem isNull_eq_false_of_notNull (ht : t.isOneOf = false) (h : t.applies b .notNull = true)
    (ho : o ∈ t.tested) (hv : o.Carries b v) : v.isNull = false := by
  simpa [Guard.accepts] using (Test.applies_iff ht).1 h o ho v hv

/-- A value that is not empty is not null. -/
theorem accepts_notEmpty_iff :
    Guard.notEmpty.accepts v = true ↔ v.isNull = false ∧ v.isEmpty = false := by
  rw [Guard.accepts, Bool.not_eq_true']
  constructor
  · intro hempty
    by_cases hnull : v.isNull = true
    · rw [Value.isEmpty_of_isNull hnull] at hempty
      cases hempty
    · exact ⟨by simpa using hnull, hempty⟩
  · intro h
    exact h.2

theorem oneOf_applies_notEmpty_iff (operand : Operand Nat) (candidates : List (Operand Nat))
    (negated : Bool) : (Test.oneOf operand candidates negated).applies b .notEmpty = true ↔
      ∃ c ∈ candidates, ∃ v, c.Carries b v := by
  rw [Test.applies_oneOf, Guard.accepts, Value.isEmpty, Bool.not_eq_true',
    List.isEmpty_eq_false_iff_exists_mem]
  simp only [List.mem_filterMap, Operand.resolve?_eq_some_iff]
  constructor
  · intro h
    obtain ⟨v, c, hc, hv⟩ := h
    exact ⟨c, hc, v, hv⟩
  · intro h
    obtain ⟨c, hc, v, hv⟩ := h
    exact ⟨v, c, hc, hv⟩

/-- **Guards look at values.** -/
theorem guardsValues (b : Bindings) : GuardsValues b where
  notNull t ht := by
    rw [Test.applies_iff ht]
    simp [Guard.accepts]
  notEmpty t ht := by
    rw [Test.applies_iff ht]
    simp only [accepts_notEmpty_iff]
  oneOf_notNull operand candidates negated := by
    rw [Test.applies_oneOf]
    rfl
  oneOf_notEmpty := oneOf_applies_notEmpty_iff
  valueless guard t ht hnone := by
    rw [Test.applies_iff ht]
    intro o ho v hv
    exact absurd hv (hnone o ho v)
  emits := atoms_conjunction_eq b
  binds g t ht h o ho v hv := by
    have hnull := isNull_eq_false_of_notNull ht h ho hv
    exact ⟨hnull, hv.fragment_eq hnull g⟩
  bindsNoNull g t ht h o ho hexpr name v hslot :=
    isNull_eq_false_of_notNull ht h ho (Operand.carries_of_slot hexpr hslot)

/-- A null among candidates passes `notNull`, an empty text among them passes `notEmpty`, and an
expression passes both, whatever it stands for. The null is then bound. -/
theorem null_candidate_rendered :
    Operand.Carries [] (.value .null) .null ∧
    (Test.oneOf (.node 1) [.value .null] false).applies [] .notNull = true ∧
    (Test.oneOf (.node 1) [.value (.string "")] false).applies [] .notEmpty = true ∧
    (Test.compare (.node 1) .eq (.expression (.literal .null))).applies [] .notNull = true ∧
    ((Stage.start Sample.registry .default).run
        [.call (.addFrom "Person"), .call (.access ⟨0, .root⟩ "name"),
          .call (.restrict (.filter ⟨1, .property⟩) .notNull (.oneOf [.null] false))]
      ).query.compile.map (fun out => (out.text, out.values.map Value.isNull)) =
      .ok ("from Person hobj1 where hobj1.name in (?)", [true]) := by
  exact ⟨.value .null, by decide +kernel, by decide +kernel, by decide +kernel, by decide +kernel⟩

end PathQuery
