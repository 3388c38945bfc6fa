import PathQuery.Proofs.Placeholders
import PathQuery.Proofs.Sight

/-!
# What a text asks of the bindings

A text asks the bindings for the values of the parameters that its clauses name, and for nothing
else. So bindings that *agree* on these names give the same fragments: the same conditions apply,
and the same values stand in the same slots (`rendered_rebind`).

When the fragments are written, the names of all bindings are reserved, and a generated name is the
first one that is free. So it does not matter in which order the names are reserved, or how often
(`freshNumber_withReserved`), and bindings that agree on every name give the same text.

Main statements: `Draft.rendered_rebind` and `Draft.compile_rebind`.
-/

namespace PathQuery

variable {g : Graph} {b b' : Bindings}

/-! ## Operands -/

/-- Whether bindings give each parameter of an operand the value that other bindings give it. -/
def Operand.Agree (b b' : Bindings) (o : Operand Nat) : Prop :=
  ∀ name, .parameter name ∈ o.leaves → b'.get? name = b.get? name

mutual

theorem Operand.fragment_congr : (o : Operand Nat) → o.Agree b b' →
    o.fragment g b' = o.fragment g b
  | .node i, _ => rfl
  | .value v, _ => rfl
  | .parameter name, h => by
    rw [Operand.fragment, Operand.fragment, h name (by simp [Operand.leaves])]
  | .expression e, h => by
    rw [Operand.fragment, Operand.fragment]
    exact e.fragment_congr h

theorem Expression.fragment_congr : (e : Expression Nat) →
    (∀ name, .parameter name ∈ e.leaves → b'.get? name = b.get? name) →
    e.fragment g b' = e.fragment g b
  | .call name args, h => by
    rw [Expression.fragment, Expression.fragment, Operand.fragments_congr args h]
  | .aggregate func distinct arg, h => by
    rw [Expression.fragment, Expression.fragment, arg.fragment_congr h]
  | .raw text values, _ => rfl
  | .literal v, _ => rfl

theorem Operand.fragments_congr : (args : List (Operand Nat)) →
    (∀ name, .parameter name ∈ Operand.leavesOf args → b'.get? name = b.get? name) →
    Operand.fragments g b' args = Operand.fragments g b args
  | [], _ => rfl
  | a :: rest, h => by
    rw [Operand.fragments, Operand.fragments,
      a.fragment_congr fun name hn => h name (List.mem_append_left _ hn),
      Operand.fragments_congr rest fun name hn => h name (List.mem_append_right _ hn)]

end

theorem Operand.resolve?_congr {o : Operand Nat} (h : o.Agree b b') :
    o.resolve? b' = o.resolve? b := by
  cases o with
  | parameter name =>
    rw [Operand.resolve?, Operand.resolve?, h name (by simp [Operand.leaves])]
  | node | value | expression => rfl

/-! ## Conditions -/

/-- Whether bindings agree on all operands of a test. -/
def Test.Agree (b b' : Bindings) (t : Test) : Prop := ∀ o ∈ t.operands, o.Agree b b'

theorem Test.guarded_congr {t : Test} (h : t.Agree b b') : t.guarded b' = t.guarded b := by
  cases t with
  | compare left op right =>
    rw [Test.guarded, Test.guarded, Operand.resolve?_congr (h right (by simp [Test.operands]))]
  | between operand low high =>
    rw [Test.guarded, Test.guarded]
    refine List.filterMap_congr fun o ho => Operand.resolve?_congr (h o ?_)
    exact List.mem_cons_of_mem operand ho
  | oneOf operand candidates negated =>
    have hsame : candidates.filterMap (·.resolve? b') = candidates.filterMap (·.resolve? b) :=
      List.filterMap_congr fun o ho => Operand.resolve?_congr (h o (List.mem_cons_of_mem _ ho))
    rw [Test.guarded, Test.guarded, hsame]
  | inSub | hasRows | isNull => rfl

mutual

theorem Condition.applies_congr : (c : Condition) → (∀ t ∈ c.tests, t.Agree b b') →
    c.applies b' = c.applies b
  | .test guard t, h => by
    rw [Condition.applies, Condition.applies, Test.applies, Test.applies,
      Test.guarded_congr (h t List.mem_cons_self)]
  | .group _ members, h => Condition.anyApplies_congr members h

theorem Condition.anyApplies_congr : (cs : List Condition) →
    (∀ t ∈ Condition.testsOf cs, t.Agree b b') →
    Condition.anyApplies b' cs = Condition.anyApplies b cs
  | [], _ => rfl
  | c :: cs, h => by
    rw [Condition.anyApplies, Condition.anyApplies,
      c.applies_congr fun t ht => h t (List.mem_append_left _ ht),
      Condition.anyApplies_congr cs fun t ht => h t (List.mem_append_right _ ht)]

end

mutual

theorem Condition.tokens_congr : (c : Condition) → (∀ t ∈ c.tests, t.Agree b b') →
    c.tokens b' = c.tokens b
  | .test _ t, _ => rfl
  | .group j members, h => by
    rw [Condition.tokens, Condition.tokens, Condition.parts_congr members h]

theorem Condition.parts_congr : (cs : List Condition) →
    (∀ t ∈ Condition.testsOf cs, t.Agree b b') → Condition.parts b' cs = Condition.parts b cs
  | [], _ => rfl
  | c :: cs, h => by
    have hc : ∀ t ∈ c.tests, t.Agree b b' := fun t ht => h t (List.mem_append_left _ ht)
    have hcs : ∀ t ∈ Condition.testsOf cs, t.Agree b b' := fun t ht =>
      h t (List.mem_append_right _ ht)
    rw [Condition.parts, Condition.parts, c.applies_congr hc, c.tokens_congr hc,
      Condition.parts_congr cs hcs]

end

/-! ## Drafts -/

/-- The draft with other values of its named parameters. -/
def Draft.rebind (d : Draft) (b : Bindings) : Draft := { d with bindings := b }

/-- Whether some clause of a draft names a parameter. -/
def Draft.Asks (d : Draft) (name : String) : Prop :=
  ∃ (s : Nat) (c : Clauses), d.clauses[s]? = some c ∧
    ∃ o ∈ c.operands, .parameter name ∈ o.leaves

namespace Draft

variable {d : Draft} {sub : Nat → Fragment} {c : Clauses} {s : Nat}

theorem testFragment_rebind {t : Test} (h : t.Agree d.bindings b) :
    (d.rebind b).testFragment sub t = d.testFragment sub t := by
  have hop : ∀ o ∈ t.operands, (d.rebind b).operandFragment o = d.operandFragment o := fun o ho =>
    o.fragment_congr (h o ho)
  cases t with
  | compare left op right =>
    rw [testFragment, testFragment, hop left (by simp [Test.operands]),
      hop right (by simp [Test.operands])]
  | between operand low high =>
    rw [testFragment, testFragment, hop operand (by simp [Test.operands]),
      hop low (by simp [Test.operands]), hop high (by simp [Test.operands])]
  | oneOf operand candidates negated =>
    cases candidates with
    | nil => rfl
    | cons o rest =>
      have hmap : (o :: rest).map (d.rebind b).operandFragment =
          (o :: rest).map d.operandFragment :=
        List.map_congr_left fun x hx => hop x (List.mem_cons_of_mem _ hx)
      rw [testFragment, testFragment, hop operand List.mem_cons_self, hmap] <;>
        exact List.cons_ne_nil _ _
  | inSub operand scope negated =>
    rw [testFragment, testFragment, hop operand (by simp [Test.operands])]
  | hasRows scope negated => rfl
  | isNull operand negated =>
    rw [testFragment, testFragment, hop operand (by simp [Test.operands])]

theorem conditionsFragment_rebind {cs : List Condition}
    (h : ∀ t ∈ Condition.testsOf cs, t.Agree d.bindings b) (keyword : String) :
    (d.rebind b).conditionsFragment sub keyword cs = d.conditionsFragment sub keyword cs := by
  have htokens : conjunction (d.rebind b).bindings cs = conjunction d.bindings cs := by
    rw [conjunction, conjunction, show (d.rebind b).bindings = b from rfl,
      Condition.parts_congr cs h]
  rw [conditionsFragment, conditionsFragment, htokens]
  have hflat : (conjunction d.bindings cs).flatMap
        (Token.fragment ((d.rebind b).testFragment sub)) =
      (conjunction d.bindings cs).flatMap (Token.fragment (d.testFragment sub)) := by
    refine List.flatMap_congr fun k hk => ?_
    cases k with
    | atom t =>
      have ht := Condition.mem_testsOf_of_activeOf cs (atom_mem_conjunction.1 hk)
      exact testFragment_rebind (h t ht)
    | opening | closing | junction => rfl
  cases hc : conjunction d.bindings cs with
  | nil => rfl
  | cons k ks =>
    rw [hc] at hflat
    dsimp only
    rw [hflat]

/-- Bindings that agree on the operands of clauses agree on all conditions of a list of them. -/
theorem agree_of_conditions (h : ∀ o ∈ c.operands, o.Agree d.bindings b) {cs : List Condition}
    (hcs : cs ⊆ c.conditions) : ∀ t ∈ Condition.testsOf cs, t.Agree d.bindings b := by
  intro t ht o ho
  obtain ⟨x, hx, hxt⟩ := Condition.mem_testsOf.1 ht
  refine h o (List.mem_append_right _ (List.mem_flatMap.2 ⟨x, hcs hx, ?_⟩))
  exact List.mem_flatMap.2 ⟨t, hxt, ho⟩

theorem joinFragment_rebind (h : ∀ o ∈ c.operands, o.Agree d.bindings b) (s i : Nat) :
    (d.rebind b).joinFragment sub s c i = d.joinFragment sub s c i := by
  have hsub : c.conditionsFor i ⊆ c.conditions := by
    intro x hx
    obtain ⟨y, hy, rfl⟩ := List.mem_map.1 hx
    exact Clauses.mem_conditions_of_join (List.mem_filter.1 hy).1
  have hconditions : (d.rebind b).conditionsFragment sub " with " (c.conditionsFor i) =
      d.conditionsFragment sub " with " (c.conditionsFor i) :=
    conditionsFragment_rebind (agree_of_conditions h hsub) " with "
  unfold joinFragment
  rw [hconditions]
  rfl

theorem sourceFragment_rebind (h : ∀ o ∈ c.operands, o.Agree d.bindings b) (s : Nat) :
    (d.rebind b).sourceFragment sub s c = d.sourceFragment sub s c := by
  have hjoin : (d.rebind b).joinFragment sub s c = d.joinFragment sub s c :=
    funext (joinFragment_rebind h s)
  have hroot : (d.rebind b).rootFragment sub s c = d.rootFragment sub s c := by
    funext root
    rw [rootFragment, rootFragment, hjoin]
    rfl
  rw [sourceFragment, sourceFragment, hjoin, hroot]
  rfl

theorem projectionFragment_rebind {x : Projection} (h : x.operand.Agree d.bindings b) :
    (d.rebind b).projectionFragment x = d.projectionFragment x := by
  cases x with
  | node i => rfl
  | aggregate func distinct i => rfl
  | expression o => exact o.fragment_congr h

theorem selectFragment_rebind (h : ∀ o ∈ c.items, o.Agree d.bindings b) (s : Nat) :
    (d.rebind b).selectFragment s c = d.selectFragment s c := by
  have hmap : c.projections.map (d.rebind b).projectionFragment =
      c.projections.map d.projectionFragment :=
    List.map_congr_left fun x hx =>
      projectionFragment_rebind (h _ (Clauses.mem_items.2 (Or.inl ⟨x, hx, rfl⟩)))
  unfold selectFragment
  split
  · rfl
  · rfl
  · rw [hmap]

theorem groupingFragment_rebind (h : ∀ o ∈ c.items, o.Agree d.bindings b) :
    (d.rebind b).groupingFragment c = d.groupingFragment c := by
  have hmap : c.groupBy.map (d.rebind b).operandFragment = c.groupBy.map d.operandFragment :=
    List.map_congr_left fun o ho =>
      o.fragment_congr (h o (Clauses.mem_items.2 (Or.inr (Or.inl ho))))
  unfold groupingFragment
  split
  · rfl
  · rw [hmap]

theorem orderingFragment_rebind (h : ∀ o ∈ c.items, o.Agree d.bindings b) :
    (d.rebind b).orderingFragment c = d.orderingFragment c := by
  have hmap : c.orderBy.map (fun item =>
        (d.rebind b).operandFragment item.operand ++ [.text (" " ++ item.direction.keyword)]) =
      c.orderBy.map fun item =>
        d.operandFragment item.operand ++ [.text (" " ++ item.direction.keyword)] := by
    refine List.map_congr_left fun x hx => congrArg (· ++ _) ?_
    exact x.operand.fragment_congr (h _ (Clauses.mem_items.2 (Or.inr (Or.inr ⟨x, hx, rfl⟩))))
  unfold orderingFragment
  split
  · rfl
  · rw [hmap]

theorem sectionsWith_rebind (h : ∀ o ∈ c.operands, o.Agree d.bindings b) (s : Nat) :
    (d.rebind b).sectionsWith sub s c = d.sectionsWith sub s c := by
  have hitem : ∀ o ∈ c.items, o.Agree d.bindings b := fun o ho => h o (List.mem_append_left _ ho)
  have hfilter : (d.rebind b).conditionsFragment sub "where " c.restrictions =
      d.conditionsFragment sub "where " c.restrictions :=
    conditionsFragment_rebind (agree_of_conditions h (List.subset_append_left _ _)) _
  rw [sectionsWith, sectionsWith, selectFragment_rebind hitem, sourceFragment_rebind h, hfilter,
    groupingFragment_rebind hitem, orderingFragment_rebind hitem]

/-- **What a text asks of the bindings.** Bindings that agree on the parameters that the clauses
name give the same fragments, in every scope. -/
theorem sections_rebind (h : ∀ name, d.Asks name → b.get? name = d.bindings.get? name) :
    ∀ fuel s, (d.rebind b).sections fuel s = d.sections fuel s := by
  intro fuel
  induction fuel with
  | zero => exact fun _ => rfl
  | succ fuel ih =>
    intro s
    have hsub : (fun i => ((d.rebind b).sections fuel i).fragment) =
        fun i => (d.sections fuel i).fragment := funext fun i => by rw [ih i]
    cases hc : d.clauses[s]? with
    | none =>
      have hc' : (d.rebind b).clauses[s]? = none := hc
      rw [sections, sections, hc, hc']
    | some c =>
      have hagree : ∀ o ∈ c.operands, o.Agree d.bindings b := fun o ho name hn =>
        h name ⟨s, c, hc, o, ho, hn⟩
      have hc' : (d.rebind b).clauses[s]? = some c := hc
      rw [sections_succ hc, sections_succ hc', hsub, sectionsWith_rebind hagree]

theorem rendered_rebind (h : ∀ name, d.Asks name → b.get? name = d.bindings.get? name) :
    (d.rebind b).rendered = d.rendered :=
  sections_rebind h _ 0

end Draft

/-! ## Reserved names -/

namespace ParameterList

variable {l : ParameterList} {r : List String}

/-- The list with other reserved names. -/
def withReserved (l : ParameterList) (r : List String) : ParameterList := { l with reserved := r }

/-- Which name is free depends only on which names are reserved. -/
theorem freshNumber_withReserved (h : ∀ x, x ∈ r ↔ x ∈ l.reserved) :
    (l.withReserved r).freshNumber = l.freshNumber := by
  have htaken : ∀ x, x ∈ (l.withReserved r).taken ↔ x ∈ l.taken := by
    intro x
    rw [taken, taken, List.mem_append, List.mem_append]
    exact or_congr_left (h x)
  have hfree := l.generated_freshNumber_not_mem
  have hfree' := (l.withReserved r).generated_freshNumber_not_mem
  rcases Nat.lt_trichotomy (l.withReserved r).freshNumber l.freshNumber with hlt | heq | hlt
  · have hmem := mem_of_lt_freeNumber (le_freeNumber _ _ l.nextNumber) hlt
    exact absurd ((htaken _).2 hmem) hfree'
  · exact heq
  · have hmem := mem_of_lt_freeNumber (le_freeNumber _ _ l.nextNumber) hlt
    exact absurd ((htaken _).1 hmem) hfree

theorem push_withReserved (h : ∀ x, x ∈ r ↔ x ∈ l.reserved) (name : Option String) (v : Value) :
    (l.withReserved r).push name v =
      ((l.push name v).1, (l.push name v).2.withReserved r) := by
  cases name with
  | none =>
    show (l.withReserved r).pushGenerated v = _
    rw [pushGenerated, freshNumber_withReserved h]
    rfl
  | some n =>
    show (l.withReserved r).pushNamed n v = _
    rw [pushNamed, push, pushNamed, show (l.withReserved r).style = l.style from rfl,
      show (l.withReserved r).isBound n = l.isBound n from rfl]
    split <;> rfl

end ParameterList

namespace Fragment

/-- Lists that give the same placeholders, now and after every value, give the same texts. -/
theorem write_congr {R : ParameterList → ParameterList → Prop}
    (hR : ∀ {l l'}, R l l' → ∀ name v, (l'.push name v).1 = (l.push name v).1 ∧
      R (l.push name v).2 (l'.push name v).2)
    (f : Fragment) {l l' : ParameterList} (h : R l l') :
    (f.write l').1 = (f.write l).1 ∧ R (f.write l).2 (f.write l').2 := by
  induction f generalizing l l' with
  | nil => exact ⟨rfl, h⟩
  | cons p rest ih =>
    cases p with
    | text s =>
      obtain ⟨htext, hlist⟩ := ih h
      simp only [write, htext]
      exact ⟨trivial, hlist⟩
    | slot name v =>
      obtain ⟨hmark, hpush⟩ := hR h name v
      obtain ⟨htext, hlist⟩ := ih hpush
      simp only [write, hmark, htext]
      exact ⟨trivial, hlist⟩
    | fault e => exact ⟨rfl, h⟩

theorem writeAll_congr {R : ParameterList → ParameterList → Prop}
    (hR : ∀ {l l'}, R l l' → ∀ name v, (l'.push name v).1 = (l.push name v).1 ∧
      R (l.push name v).2 (l'.push name v).2)
    {fs : List Fragment} {l l' last : ParameterList} {texts : List String} (h : R l l')
    (hw : writeAll fs l = .ok (texts, last)) :
    ∃ last', writeAll fs l' = .ok (texts, last') ∧ R last last' := by
  induction fs generalizing l l' texts with
  | nil =>
    cases hw
    exact ⟨l', rfl, h⟩
  | cons f rest ih =>
    rw [writeAll] at hw
    obtain ⟨htext, hlist⟩ := write_congr hR f h
    split at hw
    · next s l₁ hf =>
      obtain ⟨⟨ts, l₂⟩, hrest, heq⟩ := map_eq_ok_iff.1 hw
      obtain ⟨rfl, rfl⟩ : s :: ts = texts ∧ l₂ = last := Prod.ext_iff.1 heq
      rw [hf] at htext hlist
      obtain ⟨last', hrest', hlast⟩ := ih hlist hrest
      have hf' : f.write l' = (.ok s, (f.write l').2) := Prod.ext htext rfl
      exact ⟨last', by rw [writeAll, hf']; exact map_eq_ok_iff.2 ⟨_, hrest', rfl⟩, hlast⟩
    · cases hw

end Fragment

/-! ## Compiling -/

theorem Bindings.mem_names_iff {name : String} :
    name ∈ b.names ↔ ∃ v, b.get? name = some v := by
  constructor
  · intro h
    induction b with
    | nil => cases h
    | cons p rest ih =>
      rw [Bindings.get?, List.lookup_cons]
      by_cases hp : name = p.1
      · exact ⟨p.2, by simp [hp]⟩
      · obtain ⟨v, hv⟩ := ih ((List.mem_cons.1 h).resolve_left hp)
        have hne : (name == p.1) = false := by simpa using hp
        exact ⟨v, by rw [hne]; exact hv⟩
  · rintro ⟨v, hv⟩
    exact ParameterList.mem_names_of_get? hv

namespace Draft

variable {d : Draft}

/-- Bindings that agree on every name give the same text with the same parameters, or the same
error. -/
theorem compile_rebind (h : ∀ name, b.get? name = d.bindings.get? name)
    (style : ParameterStyle) : (d.rebind b).compile style = d.compile style := by
  have hnames : ∀ x, x ∈ b.names ↔ x ∈ d.bindings.names := by
    intro x
    rw [Bindings.mem_names_iff, Bindings.mem_names_iff, h x]
  -- The lists differ in the order of the reserved names only.
  let R : ParameterList → ParameterList → Prop := fun l l' =>
    l' = l.withReserved b.names ∧ ∀ x, x ∈ b.names ↔ x ∈ l.reserved
  have hR : ∀ {l l'}, R l l' → ∀ name v, (l'.push name v).1 = (l.push name v).1 ∧
      R (l.push name v).2 (l'.push name v).2 := by
    rintro l l' ⟨rfl, hres⟩ name v
    rw [ParameterList.push_withReserved hres]
    exact ⟨rfl, rfl, fun x => by rw [ParameterList.reserved_push]; exact hres x⟩
  have hstart : R (.empty style d.bindings.names) (.empty style b.names) := ⟨rfl, hnames⟩
  rw [compile_eq, compile_eq, rendered_rebind fun name _ => h name]
  cases hw : Fragment.writeAll d.rendered.toList (.empty style d.bindings.names) with
  | error e => exact map_eq_error_iff.2 (Fragment.writeAll_error_congr hw _)
  | ok r =>
    obtain ⟨last', hw', hlast⟩ := Fragment.writeAll_congr hR hstart hw
    have hparams : last'.parameters = r.2.parameters := by
      rw [hlast.1]
      rfl
    refine map_eq_ok_iff.2 ⟨_, hw', ?_⟩
    dsimp only
    rw [hparams]
    rfl

end Draft

end PathQuery
