import PathQuery.Proofs.Dangling
import PathQuery.Proofs.Placeholders

/-!
# Restrictions of joins reach the text

A restriction of a join is accepted only while the join is rendered, and it is stored with the
clauses of its scope, which are only ever added to (`KeepsConditions`). In the text of a query that
compiles it stands in the on-clause of its join, with a placeholder for each of its values, as long
as there is such a clause.

The join type may be set again, and nothing asks for restrictions then. A join that is set to
`none` is not rendered, and the restrictions that were accepted for it are lost without an error
(`restriction_lost`).

Main statement: `Reachable.carriesAccepted`.
-/

namespace PathQuery

/-! ## What is stored -/

namespace Query

/-- Whether every scope keeps the conditions of its joins, with new ones after them. -/
def KeepsConditions (q q' : Query) : Prop :=
  ∀ s b, q.conditionsOn s b <+: q'.conditionsOn s b

variable {h : Handles} {q q' q'' : Query}

namespace KeepsConditions

theorem refl (q : Query) : q.KeepsConditions q := fun _ _ => List.prefix_rfl

theorem trans (h₁ : q.KeepsConditions q') (h₂ : q'.KeepsConditions q'') :
    q.KeepsConditions q'' := fun s b => (h₁ s b).trans (h₂ s b)

/-- A query with the same clauses. -/
theorem of_eq (hc : q'.clauses = q.clauses) : q.KeepsConditions q' := by
  intro s b
  have heq : q'.conditionsOn s b = q.conditionsOn s b := by
    rw [Draft.conditionsOn, Draft.conditionsOn, hc]
  exact heq ▸ List.prefix_rfl

/-- A query whose clauses have been added to. -/
theorem of_clauses (hc : ∀ (s : Nat) (c : Clauses), q.clauses[s]? = some c →
    ∃ c', q'.clauses[s]? = some c' ∧ ∀ b, c.conditionsFor b <+: c'.conditionsFor b) :
    q.KeepsConditions q' := by
  intro s b
  rw [Draft.conditionsOn]
  cases hs : q.clauses[s]? with
  | none => exact List.nil_prefix
  | some c =>
    obtain ⟨c', hc', hpre⟩ := hc s c hs
    rw [Draft.conditionsOn, hc']
    exact hpre b

end KeepsConditions

theorem Change.keepsConditions (hc : Change h q q') : q.KeepsConditions q' := by
  cases hc with
  | add a fits =>
    rcases q.add_eq a with heq | ⟨_, _, _, -, -, heq⟩
    · refine .of_clauses fun s c hs => ⟨if q.current = s then c.add a else c, ?_, fun b => ?_⟩
      · rw [heq, clauses_modifyClauses, hs, Option.map_some]
      · split
        · exact c.conditionsFor_prefix_add a b
        · exact List.prefix_rfl
    · rw [heq]
      exact .of_eq rfl
  | _ => exact .of_eq rfl

theorem keepsConditions_enterSub (q : Query) : q.KeepsConditions q.enterSub := by
  refine .of_clauses fun s c hs => ⟨c, ?_, fun _ => List.prefix_rfl⟩
  rw [enterSub, List.getElem?_append_left (List.getElem?_eq_some_iff.1 hs).1]
  exact hs

/-- A condition that is put on a join is among those of the join from then on. -/
theorem mem_conditionsOn_addCondition {c : Clauses} (hc : q.clauses[q.current]? = some c) (b : Nat)
    (x : Condition) : x ∈ (q.addCondition (.join b) x).conditionsOn q.current b := by
  refine Draft.mem_conditionsOn.2 ⟨c.addJoinCondition b x, ?_, ?_⟩
  · rw [addCondition, clauses_modifyClauses, hc, Option.map_some, if_pos rfl]
  · exact List.mem_append_right _ List.mem_cons_self

end Query

/-! ## What is accepted -/

namespace Stage

/-- Whether an event is the acceptance of a guarded test for the join of a node: a restriction of
the join that is completed without an error, at once or by a property to compare with. -/
inductive Accepts (s : Stage) : Event → Nat → Guard → Test → Prop
  | restrict {join property : Placeholder} {guard completion t}
    (made : completion.test? (.node property.node) = some t)
    (ok : ((Call.restrict (.onJoin join property) guard completion).run s.query).1 = .ok ()) :
    Accepts s (.call (.restrict (.onJoin join property) guard completion)) join.node guard t
  | compare {b left guard op rest} {p : Placeholder}
    (running : s.frames = .comparison ⟨.join b, left⟩ guard op :: rest)
    (ok : (Query.compareProperty ⟨.join b, left⟩ guard op p s.query).1 = .ok ()) :
    Accepts s (.leaveComparison (some p)) b guard (.compare left op (.node p.node))

variable {h : Nat → Handles} {s : Stage} {e : Event} {b : Nat} {guard : Guard} {t : Test}

/-- What is accepted is put on the join, and only pending accesses are changed otherwise. -/
theorem Accepts.step_query (hs : s.Sound h) (he : e.Within (h s.query.current))
    (ha : s.Accepts e b guard t) : ∃ pending, (s.step e).query =
      ({ s.query with pending := pending } : Query).addCondition (.join b) (.test guard t) := by
  cases ha with
  | @restrict join property _ completion _ made ok =>
    have hleads : Build.Leads (h s.query.current)
        (Call.restrict (.onJoin join property) guard completion).run s.query fun _ q' => ∃ pending,
          q' = ({ s.query with pending := pending } : Query).addCondition (.join join.node)
            (.test guard t) := by
      refine Build.leads_bind _ (Query.onJoin_leads join property) ?_
      rintro subject q' ⟨⟨pending, rfl⟩, rfl, hfits⟩
      refine Build.Leads.imp (completion.leads guard hfits ?_ he.2) fun _ _ hq => ⟨pending, hq t made⟩
      exact fun x hx => he.1 x (List.mem_append_right _ hx)
    exact hleads.result () ok
  | @compare b left guard op rest p running ok =>
    have hn := hs.nested
    rw [running] at hn
    have hstep : (s.step (.leaveComparison (some p))).query =
        (Query.compareProperty ⟨.join b, left⟩ guard op p s.query).2 := by
      simp only [step, running]
    rw [hstep]
    exact (Query.compareProperty_leads hn.of_comparison.1 guard op p).result () ok

theorem Accepts.mem_conditionsOn (hs : s.Sound h) (he : e.Within (h s.query.current))
    (ha : s.Accepts e b guard t) :
    .test guard t ∈ (s.step e).query.conditionsOn s.query.current b := by
  obtain ⟨pending, hq⟩ := ha.step_query hs he
  obtain ⟨c, hc⟩ := hs.query.exists_clauses s.query.scopes.current_lt
  rw [hq]
  exact Query.mem_conditionsOn_addCondition (q := { s.query with pending := pending }) hc b _

theorem Sound.keepsConditions_step (hs : s.Sound h) (he : e.Within (h s.query.current)) :
    s.query.KeepsConditions (s.step e).query :=
  hs.step_relates he .refl .trans (fun _ hc => hc.keepsConditions) (fun _ => .of_eq rfl)
    (fun _ => s.query.keepsConditions_enterSub) fun _ _ _ => .of_eq rfl

theorem Sound.keepsConditions_run (hs : s.Sound fun _ => .any) (es : List Event) :
    s.query.KeepsConditions (s.run es).query := by
  induction es generalizing s with
  | nil => exact .refl _
  | cons e es ih =>
    exact (hs.keepsConditions_step e.within_any).trans (ih (hs.step e.within_any).sound)

end Stage

/-! ## What is written -/

/-- A sub-query as it is rendered up to a depth. -/
def Draft.subFragment (d : Draft) (depth inner : Nat) : Fragment :=
  (d.sections depth inner).fragment

/-- Where a test stands in the text of a query: in the on-clause of a join, which is an entry of
the `from` list of its scope. -/
structure Query.OnClause (q : Query) (s b : Nat) (t : Test) where
  /-- Up to which depth the sub-queries of the scope are rendered. -/
  depth : Nat
  keyword : String
  name : String
  /-- What stands around the `from` list. -/
  before : Fragment
  after : Fragment
  /-- What stands around the join in the `from` list. -/
  above : Fragment
  below : Fragment
  /-- What stands around the test in the on-clause. -/
  left : Fragment
  right : Fragment
  typed : (q.graph.joinType b).keyword? = some keyword
  owned : q.graph.alias? b = some name
  clause : q.conditionsFragment (q.subFragment depth) " with " (q.conditionsOn s b) =
    .text " with " :: (left ++ q.testFragment (q.subFragment depth) t ++ right)
  source : (q.sections (depth + 1) s).source = above ++
    (.text (" " ++ keyword ++ " " ++ q.graph.joinPath b ++ " " ++ name) ::
      q.conditionsFragment (q.subFragment depth) " with " (q.conditionsOn s b)) ++ below
  text : q.rendered.fragment = before ++ (q.sections (depth + 1) s).source ++ after

namespace Query

variable {h : Nat → Handles} {q : Query} {s b : Nat} {guard : Guard} {t : Test} {out : Compiled}

namespace OnClause

/-- The test as it is rendered. -/
def test (o : q.OnClause s b t) : Fragment := q.testFragment (q.subFragment o.depth) t

/-- The fragment of the query in three parts, of which the second one is the test. -/
def parts (o : q.OnClause s b t) : List Fragment :=
  [o.before ++ o.above ++
      [.text (" " ++ o.keyword ++ " " ++ q.graph.joinPath b ++ " " ++ o.name), .text " with "] ++
      o.left,
    o.test, o.right ++ o.below ++ o.after]

theorem flatten_parts (o : q.OnClause s b t) : q.rendered.fragment = o.parts.flatten := by
  rw [o.text, o.source, o.clause]
  simp [parts, test]

end OnClause

/-- Whether a compiled query has a test in the on-clause of a join, with its parameters. -/
def Carries (q : Query) (out : Compiled) (s b : Nat) (t : Test) : Prop :=
  ∃ o : q.OnClause s b t, q.Writes q.settings.parameterStyle out o.parts ∧
    ∀ slot ∈ o.test.slots, slot.2 ∈ out.values

/-- Whether a test is in the text as long as its join is. A join that is not rendered was set to
none, and the scope does not declare it. -/
structure CarriesJoined (q : Query) (out : Compiled) (s b : Nat) (t : Test) : Prop where
  carried : q.graph.joinType b ≠ .none → q.Carries out s b t
  lost : q.graph.joinType b = .none →
    (q.graph.node? b).bind (·.join) = some .none ∧ b ∉ q.declared s

theorem OnClause.carries (o : q.OnClause s b t) (hq : q.Sound h) (hc : q.compile = .ok out) :
    q.Carries out s b t := by
  have hc := toDraft_of_compile hc
  refine ⟨o, Draft.writes_of_flatten hc o.flatten_parts, fun slot hslot => ?_⟩
  refine Draft.mem_values hc hq.follow ?_
  rw [o.flatten_parts, Fragment.mem_slots]
  exact List.mem_flatten.2 ⟨o.test, by simp [parts], Fragment.mem_slots.1 hslot⟩

/-- A rendered scope has a root. -/
theorem Sound.roots_ne_nil (hq : q.Sound h) (hc : q.compile = .ok out) (hr : q.Renders s) :
    q.scopes.roots s ≠ [] := by
  intro hroots
  have hok := Draft.exists_compile_iff.1 ⟨out, toDraft_of_compile hc⟩
  obtain ⟨f, hf, hfault⟩ := (hq.mem_rendered rfl).2 ⟨s, hr, .noRoots hroots rfl⟩
  exact hok f hf _ hfault

/-- A join that has conditions is emitted if it is of some type. -/
theorem Sound.emits_of_condition (hq : q.Sound h) (hr : q.scopes.roots s ≠ [])
    {x : Condition} (hx : x ∈ q.conditionsOn s b) (hj : q.graph.joinType b ≠ .none) :
    q.Emits s b := by
  obtain ⟨n, hn, hscope, hk, hset⟩ := hq.joins_of_condition hx
  refine ⟨hr, ?_, ?_⟩
  · rw [Draft.isJoined, Graph.ownsAlias, Graph.kind?, hn]
    cases hkind : n.kind <;> simp [hkind, NodeKind.reservesAlias, hscope, hj] at hk ⊢
  · unfold Draft.needsJoinType
    split
    · rfl
    · simp [hn, hset]

/-- Otherwise it was set to none, and the scope does not declare it. -/
theorem Sound.undeclared_of_condition (hq : q.Sound h) {x : Condition}
    (hx : x ∈ q.conditionsOn s b) (hj : q.graph.joinType b = .none) :
    (q.graph.node? b).bind (·.join) = some .none ∧ b ∉ q.declared s := by
  obtain ⟨n, hn, -, hk, hset⟩ := hq.joins_of_condition hx
  obtain ⟨type, htype⟩ := Option.isSome_iff_exists.1 hset
  constructor
  · rw [Graph.joinType, hn] at hj
    rw [hn, Option.bind_some, htype]
    cases hkind : n.kind <;> simp [hkind, NodeKind.reservesAlias, htype] at hk hj ⊢ <;> exact hj
  · intro hb
    have howns := (List.mem_filter.1 hb).2
    have hroot : q.graph.kind? b ≠ some .root := by
      rw [Graph.kind?, hn, Option.map_some]
      intro hroot
      rw [Option.some.inj hroot] at hk
      cases hk
    obtain ⟨keyword, hkey⟩ := Graph.exists_keyword howns hroot
    rw [hj] at hkey
    cases hkey

/-- A test that applies stands in the on-clause of its join if that is emitted. -/
theorem Sound.exists_onClause (hq : q.Sound h) (hr : q.Renders s) (he : q.Emits s b)
    (hx : .test guard t ∈ q.conditionsOn s b) (ha : t.applies q.bindings guard = true) :
    Nonempty (q.OnClause s b t) := by
  obtain ⟨c, hclauses, -⟩ := Draft.mem_conditionsOn.1 hx
  have hon : q.conditionsOn s b = c.conditionsFor b := by
    rw [Draft.conditionsOn, hclauses]
    rfl
  have hactive : t ∈ Condition.activeOf q.bindings (c.conditionsFor b) :=
    Condition.mem_activeOf.2 ⟨_, hon ▸ hx, by simp [Condition.active, ha]⟩
  obtain ⟨depth, -, hrendered⟩ := hq.infix_rendered hr
  have hsource : (q.sections (depth + 1) s).source =
      q.sourceFragment (q.subFragment depth) s c := by
    rw [Draft.sections_succ hclauses]
    rfl
  have hin : (q.sections (depth + 1) s).source <:+: (q.sections (depth + 1) s).fragment :=
    Draft.infix_fragment (by simp [Sections.toList]) (List.infix_refl _)
  -- From the whole text inwards: the list, the join, its conditions.
  obtain ⟨before, after, htext⟩ := hin.trans hrendered
  obtain ⟨above, below, hlist⟩ :=
    Draft.infix_sourceFragment (q.subFragment depth) hq.owned hq.entityName (c := c) he
  obtain ⟨keyword, hkey, hjoin⟩ := Draft.exists_joinFragment_eq (q.subFragment depth) (c := c) he
  obtain ⟨name, hname⟩ := hq.owned.exists_alias? (Bool.and_eq_true _ _ ▸ he.joined).2
  obtain ⟨left, right, hclause⟩ :=
    Draft.exists_conditionsFragment_eq (q.subFragment depth) hactive " with "
  exact ⟨{ depth, keyword, name, before, after, above, below, left, right
           typed := hkey
           owned := hname
           clause := hon ▸ hclause
           source := by rw [hsource, ← hlist, hjoin, Graph.reference_of_alias? hname, hon]
           text := htext.symm }⟩

theorem Sound.carriesJoined (hq : q.Sound h) (hc : q.compile = .ok out) (hr : q.Renders s)
    (hx : .test guard t ∈ q.conditionsOn s b) (ha : t.applies q.bindings guard = true) :
    q.CarriesJoined out s b t where
  carried hj := by
    have he := hq.emits_of_condition (hq.roots_ne_nil hc hr) hx hj
    obtain ⟨o⟩ := hq.exists_onClause hr he hx ha
    exact o.carries hq hc
  lost hj := hq.undeclared_of_condition hx hj

end Query

/-! ## Runs -/

namespace Stage

/-- **Restrictions of joins reach the text.** Whatever is done after a restriction was accepted, it
is in the text of the query as long as its join is. -/
theorem Reachable.carriesAccepted {s : Stage} (h : s.Reachable) {e : Event} {b : Nat}
    {guard : Guard} {t : Test} (ha : s.Accepts e b guard t) (es : List Event) {out : Compiled}
    (hc : (s.run (e :: es)).query.compile = .ok out)
    (hr : (s.run (e :: es)).query.Renders s.query.current)
    (happ : t.applies (s.run (e :: es)).query.bindings guard = true) :
    (s.run (e :: es)).query.CarriesJoined out s.query.current b t := by
  have hs := h.sound
  have hstep := (hs.step e.within_any).sound
  have hkept := hstep.keepsConditions_run es s.query.current b
  have hmem := hkept.subset (ha.mem_conditionsOn hs e.within_any)
  exact (hstep.run es).sound.query.carriesJoined hc hr hmem happ

/-- A query with a join, one property of which was accessed. -/
def sampleTown : Stage :=
  (start Sample.registry .default).run
    [.call (.addFrom "Person"), .call (.access ⟨0, .root⟩ "town"),
      .call (.join ⟨1, .entity⟩ .left), .call (.access ⟨1, .entity⟩ "name")]

/-- The restriction of the join to the town of a name. -/
def restrictTown : Event :=
  .call (.restrict (.onJoin ⟨1, .entity⟩ ⟨2, .property⟩) .notEmpty
    (.compareValue .eq (.string "Paris")))

theorem accepts_restrictTown : sampleTown.Accepts restrictTown 1 .notEmpty
    (.compare (.node 2) .eq (.value (.string "Paris"))) :=
  .restrict rfl (by decide +kernel)

theorem sampleTown_carries : sampleTown.Reachable ∧
    sampleTown.Accepts restrictTown 1 .notEmpty
      (.compare (.node 2) .eq (.value (.string "Paris"))) ∧
    ∃ out, (sampleTown.run [restrictTown, .call .distinct]).query.compile = .ok out ∧
      out.text = "select distinct hobj1 from Person hobj1 left join hobj1.town hobj2 " ++
        "with hobj2.name = ?" ∧
      (sampleTown.run [restrictTown, .call .distinct]).query.CarriesJoined out 0 1
        (.compare (.node 2) .eq (.value (.string "Paris"))) := by
  have htext : (sampleTown.run [restrictTown, .call .distinct]).query.compile.map (·.text) =
      .ok ("select distinct hobj1 from Person hobj1 left join hobj1.town hobj2 " ++
        "with hobj2.name = ?") := by
    decide +kernel
  obtain ⟨out, hc, htext⟩ := map_eq_ok_iff.1 htext
  exact ⟨reachable_start _ _ _, accepts_restrictTown, out, hc, htext,
    Reachable.carriesAccepted (reachable_start _ _ _) accepts_restrictTown [.call .distinct] hc
      .refl (by decide +kernel)⟩

/-- A restriction that was accepted is lost when the join is set to none. The query compiles without
it. -/
theorem restriction_lost : ∃ (s : Stage) (e : Event) (es : List Event) (t : Test),
    s.Reachable ∧ s.Accepts e 1 .notEmpty t ∧
    (s.step e).query.compile.map (fun out => (out.text, out.parameters.length)) =
      .ok ("from Person hobj1 left join hobj1.town hobj2 with hobj2.name = ?", 1) ∧
    (s.run (e :: es)).query.compile.map (fun out => (out.text, out.parameters.length)) =
      .ok ("from Person hobj1", 0) ∧
    (s.run (e :: es)).query.Renders s.query.current ∧
    t.applies (s.run (e :: es)).query.bindings .notEmpty = true ∧
    ∀ out, ¬ (s.run (e :: es)).query.Carries out s.query.current 1 t := by
  refine ⟨sampleTown, restrictTown,
    [.call (.access ⟨0, .root⟩ "town"), .call (.join ⟨1, .entity⟩ .none)], _,
    reachable_start _ _ _, accepts_restrictTown, by decide +kernel, by decide +kernel, .refl,
    by decide +kernel, ?_⟩
  rintro out ⟨o, -⟩
  have hnone : (sampleTown.run [restrictTown, .call (.access ⟨0, .root⟩ "town"),
      .call (.join ⟨1, .entity⟩ .none)]).query.graph.joinType 1 = .none := by
    decide +kernel
  have hkey := o.typed
  rw [hnone] at hkey
  cases hkey

end Stage

end PathQuery
