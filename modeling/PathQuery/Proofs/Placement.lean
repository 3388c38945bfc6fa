import PathQuery.Proofs.Deeds
import PathQuery.Proofs.Programs
import PathQuery.Proofs.Reachable
import PathQuery.Schema.Sample

/-!
# Where restrictions land

A step of a script stands in the body of a group or of a sub-query, or in that of an access to
compare with, at any depth, and each step may fail. What it does with restrictions is told from the
nesting alone (`Step.deeds`): a restriction counts if its last call succeeds, a body counts up to
the first step that fails and is no attempt, and a group counts if its body succeeds.

Most operations do nothing with restrictions (`Build.Idle`). The others add one test, and the
bodies are those of scripts, so the deeds of a script are where the nesting says they are
(`Query.Places`), by induction on the script.

Main statement: `Stage.Reachable.placesRestrictions`.
-/

namespace PathQuery

/-! ## Operations that place nothing -/

/-- Whether an operation leaves all restrictions, open groups and scopes as they are. -/
def Build.Idle {α : Type} (x : Build α) : Prop := ∀ q : Query, q.Places [] (x q).2

namespace Build

variable {α β : Type}

theorem idle_pure (a : α) : Idle (pure a : Build α) := Query.Places.refl

theorem idle_ask (f : Query → Except Error α) : Idle (ask f) := Query.Places.refl

theorem Idle.bind {x : Build α} {f : α → Build β} (hx : Idle x) (hf : ∀ a, Idle (f a)) :
    Idle (x >>= f) :=
  relates_bind Query.Places.trans hx hf

end Build

namespace Query

open Build

theorem places_pending (q : Query) (p : Pending) : q.Places [] { q with pending := p } :=
  .of_same rfl rfl rfl (fun _ => rfl) (.refl _) rfl rfl

theorem idle_addFrom (type : String) : Idle (addFrom type) := by
  intro q
  unfold addFrom
  split
  · exact .of_same rfl rfl rfl (fun _ => rfl) (q.scopes.extends_addRoot _)
      (by simp [Scopes.addRoot]) rfl
  · exact .refl q

theorem idle_child (owner : Nat) (property : String) : Idle (child owner property) := by
  intro q
  unfold child
  split
  · exact .refl q
  · split
    · rw [withChild]
      dsimp only
      split
      · exact .of_same rfl rfl rfl (fun _ => rfl) (.refl _) rfl rfl
      · exact .of_same rfl rfl rfl (fun _ => rfl) (q.scopes.extends_attach _)
          (by simp [Scopes.attach]) rfl
    · exact .refl q

theorem idle_access (owner : Placeholder) (property : String) : Idle (access owner property) := by
  refine (idle_ask _).bind fun node => ?_
  refine (idle_ask _).bind fun _ => ?_
  refine (idle_child node property).bind fun c => ?_
  exact Idle.bind (fun q => q.places_pending _) fun _ => idle_ask _

theorem idle_drain : Idle drain := fun q => q.places_pending _

theorem idle_capture (operation : String) (p : Placeholder) : Idle (capture operation p) := by
  refine (idle_ask _).bind fun node => ?_
  refine Idle.bind ?_ fun _ => (idle_ask _).bind fun _ => idle_pure node
  unfold consume
  split
  · exact idle_pure ()
  · have htake : Idle (takePending operation) := fun q => q.places_pending _
    refine htake.bind fun pending => ?_
    split
    · exact idle_pure ()
    · exact idle_ask _

theorem idle_join (p : Placeholder) (type : Join) : Idle (join p type) := by
  refine (idle_capture "join" p).bind fun node => Idle.bind ?_ fun _ => idle_pure p
  intro q
  unfold joinNode
  split
  · split
    · exact .of_same rfl rfl rfl (fun _ => rfl) (.refl _) rfl rfl
    · exact .refl q
  · exact .refl q

/-- A change of the clauses that leaves the `where` list as it is. -/
theorem places_modifyClauses (q : Query) (f : Clauses → Clauses)
    (hf : ∀ c, (f c).restrictions = c.restrictions) : q.Places [] (q.modifyClauses f) := by
  refine .of_same rfl rfl rfl (fun s => ?_) (.refl _) rfl (List.length_modify ..)
  rw [whereList, clauses_modifyClauses, whereList]
  cases q.clauses[s]? with
  | none => rfl
  | some c =>
    by_cases hs : q.current = s
    · simp [hs, hf]
    · simp [hs]

theorem idle_captured {operation : String} {p : Placeholder} (f : Nat → Clauses → Clauses)
    (hf : ∀ i c, (f i c).restrictions = c.restrictions) :
    Idle (do
      let node ← capture operation p
      .change (·.modifyClauses (f node))) :=
  (idle_capture operation p).bind fun i q => q.places_modifyClauses (f i) (hf i)

theorem idle_setParameter (name : String) (value : Value) : Idle (setParameter name value) :=
  fun _ => .of_same rfl rfl rfl (fun _ => rfl) (.refl _) rfl rfl

theorem idle_filter (p : Placeholder) : Idle (filter p) :=
  (idle_capture "where" p).bind fun _ => idle_pure _

theorem idle_onJoin (join property : Placeholder) : Idle (onJoin join property) := by
  refine (idle_ask _).bind fun node => ?_
  refine (idle_ask _).bind fun _ => ?_
  refine (idle_capture "with" property).bind fun left => ?_
  exact (idle_ask _).bind fun _ => idle_pure _

theorem idle_captureRight (place : Place) (p : Placeholder) : Idle (captureRight place p) := by
  refine (idle_capture "comparison" p).bind fun right => ?_
  cases place with
  | filter => exact idle_pure right
  | join node => exact (idle_ask _).bind fun _ => idle_pure right

theorem idle_finishSub (scope : Nat) : Idle (finishSub scope) := by
  intro q
  rcases finishSub_cases scope q with ⟨e, p, heq⟩ | ⟨heq, -⟩
  · rw [heq]
    exact q.places_pending p
  · rw [heq]
    exact .refl q

end Query

/-! ## Operations that place a restriction -/

/-- What a restriction does that is for some place, if its last call succeeds. -/
def Place.deeds (p : Place) (c : Condition) (succeeded : Bool) : List Deed :=
  if p = .filter ∧ succeeded then [.restriction c] else []

namespace Query

open Build

variable {q : Query}

theorem places_addTest (ha : q.Aligned) (place : Place) (guard : Guard) (t : Test) :
    q.Places (place.deeds (.test guard t) true) (addTest place guard t q).2 := by
  cases place with
  | filter => exact places_addFilter ha _
  | join node => exact q.places_modifyClauses (·.addJoinCondition node _) fun _ => rfl

/-- A test that is added after something that may fail. -/
theorem places_bind_addTest {α : Type} {x : Build α} (hx : Idle x) (ha : q.Aligned)
    (place : Place) (guard : Guard) {t : α → Test} {u : Test}
    (ht : ∀ a q', x q = (.ok a, q') → t a = u) :
    q.Places (place.deeds (.test guard u) ((x >>= fun a => addTest place guard (t a)) q).1.isOk)
      ((x >>= fun a => addTest place guard (t a)) q).2 := by
  have hxq := hx q
  cases hr : x q with
  | mk r q' =>
    rw [hr] at hxq
    cases r with
    | error e =>
      rw [bind_of_error hr]
      have hnone : place.deeds (.test guard u) false = [] := if_neg fun h => Bool.false_ne_true h.2
      exact hxq.congr (congrArg Deed.conditionsOf hnone) fun s => congrArg (Deed.insideOf s) hnone
    | ok a =>
      rw [bind_of_ok hr, ht a q' hr]
      exact hxq.trans (places_addTest (hxq.aligned ha) place guard u)

/-- What a comparison with a property does. -/
def comparisonDeeds (s : Subject) (guard : Guard) (op : Comparison) (p : Placeholder) (q : Query) :
    List Deed :=
  s.place.deeds (.test guard (.compare s.left op (.node p.node)))
    (compareProperty s guard op p q).1.isOk

theorem places_compareProperty (ha : q.Aligned) (s : Subject) (guard : Guard)
    (op : Comparison) (p : Placeholder) :
    q.Places (comparisonDeeds s guard op p q) (compareProperty s guard op p q).2 := by
  refine places_bind_addTest (idle_captureRight s.place p) ha s.place guard ?_
  intro i q' hr
  have hright := (captureRight_leads (h := .any) (q := q) s.place p).result i (by rw [hr])
  rw [hright.2.1]

/-- What a test on the rows of a sub-query does. -/
def rowsDeeds (scope : Nat) (negated : Bool) (q : Query) : List Deed :=
  Place.filter.deeds (.test .always (.hasRows scope negated)) (hasRows scope negated q).1.isOk

theorem places_hasRows (ha : q.Aligned) (scope : Nat) (negated : Bool) :
    q.Places (rowsDeeds scope negated q) (hasRows scope negated q).2 :=
  places_bind_addTest (idle_ask _) ha .filter .always fun _ _ _ => rfl

end Query

/-- What completing a restriction does. -/
def Completion.deeds (s : Subject) (guard : Guard) (c : Completion) (q : Query) : List Deed :=
  match c.test? s.left with
  | some t => s.place.deeds (.test guard t) (c.run s guard q).1.isOk
  | none => []

theorem Completion.places {q : Query} (ha : q.Aligned) (s : Subject) (guard : Guard)
    (c : Completion) : q.Places (c.deeds s guard q) (c.run s guard q).2 := by
  cases c with
  | inSub scope negated =>
    exact Query.places_bind_addTest (Build.idle_ask _) ha s.place guard fun _ _ _ => rfl
  | nothing => exact .refl q
  | _ => exact Query.places_addTest ha s.place guard _

/-! ## Scripts -/

namespace Script

open Query Workspace

/-- The call that completes a restriction, unless that takes a body or a name is not bound. -/
def Criterion.completion? (w : Workspace) : Criterion → Option Completion
  | .compare op v => some (.compareValue op v)
  | .compareParameter op name => some (.compareParameter op name)
  | .compareProperty .. => none
  | .compareExpression op e => (w.expression e).toOption.map (.compareExpression op)
  | .between low high => some (.between low high)
  | .oneOf values negated => some (.oneOf values negated)
  | .inSub sub negated => (w.subScope sub).toOption.map (.inSub · negated)
  | .isNull negated => some (.isNull negated)
  | .nothing => some .nothing

mutual

/-- What a step does with restrictions. -/
def Step.deeds : Step → Workspace → List Deed
  | .filter of guard criterion, w =>
    match w.buildWith (w.placeholder of) Query.filter with
    | (.error _, _) => []
    | (.ok subject, w) => criterion.deeds subject guard w
  | .onJoin join of guard criterion, w =>
    match w.placeholder join with
    | .error _ => []
    | .ok join =>
      match w.buildWith (w.placeholder of) (Query.onJoin join) with
      | (.error _, _) => []
      | (.ok subject, w) => criterion.deeds subject guard w
  | .filterExpression e guard criterion, w =>
    match w.expression e with
    | .error _ => []
    | .ok e => criterion.deeds (Query.filterExpression e) guard w
  | .hasRows sub negated, w =>
    match w.subScope sub with
    | .error _ => []
    | .ok scope => rowsDeeds scope negated w.query
  | .group junction body, w =>
    let w := { w with query := w.query.enterGroup }
    [.group junction (Step.runBody body w).result.isOk (Step.deedsOf body w)]
  | .sub body _, w =>
    [.sub w.query.scopes.size (Step.deedsOf body { w with query := w.query.enterSub })]
  | .attempt step, w => step.deeds w
  | _, _ => []

/-- What completing a restriction does. A comparison comes after what its body has done. -/
def Criterion.deeds (subject : Subject) (guard : Guard) : Criterion → Workspace → List Deed
  | .compareProperty op body property, w =>
    let after := (Step.runBody body w).after
    Step.deedsOf body w ++
      match (Step.runBody body w).result, after.placeholder property with
      | .ok _, .ok p => comparisonDeeds subject guard op p after.query
      | _, _ => []
  | criterion, w =>
    match criterion.completion? w with
    | some completion => completion.deeds subject guard w.query
    | none => []

/-- What a body does: its steps in order, up to the first that fails and is no attempt. -/
def Step.deedsOf : List Step → Workspace → List Deed
  | [], _ => []
  | step :: rest, w =>
    step.deeds w ++
      match (step.run w).result, step.isAttempt with
      | .error _, false => []
      | _, _ => Step.deedsOf rest (step.run w).after

end

/-- What a script does. -/
def deedsAll : List Step → Workspace → List Deed
  | [], _ => []
  | step :: rest, w => step.deeds w ++ deedsAll rest (step.run w).after

theorem places_buildWith {α β : Type} {f : α → Build β} (hf : ∀ a, (f a).Idle) (w : Workspace)
    (a : Except Error α) : w.query.Places [] (w.buildWith a f).2.query := by
  cases a with
  | error e => exact .refl _
  | ok a => exact hf a w.query

mutual

theorem Step.places : (step : Step) → (w : Workspace) → w.query.Aligned →
    w.query.Places (step.deeds w) (step.run w).after.query
  | .source type bind, w, _ => by
    rw [Step.run, query_withPlaceholder]
    exact idle_addFrom type w.query
  | .access owner property bind, w, _ => by
    rw [Step.run, query_withPlaceholder]
    exact places_buildWith (fun p => idle_access p property) w _
  | .drain, w, _ => idle_drain w.query
  | .operand of bind, w, _ => by
    have hb := places_buildWith (idle_capture "expression") w (w.placeholder of)
    rw [Step.run]
    split
    · next e w' hr => exact congrArg (·.2.query) hr ▸ hb
    · next node w' hr => cases bind <;> exact congrArg (·.2.query) hr ▸ hb
  | .join of type bind, w, _ => by
    rw [Step.run, query_withPlaceholder]
    exact places_buildWith (fun p => idle_join p type) w _
  | .filter of guard criterion, w, ha => by
    have hb := places_buildWith idle_filter w (w.placeholder of)
    rw [Step.run, Step.deeds]
    cases hr : w.buildWith (w.placeholder of) filter with
    | mk r w' =>
      rw [hr] at hb
      cases r with
      | error e => exact hb
      | ok subject => exact hb.trans (criterion.places subject guard w' (hb.aligned ha))
  | .onJoin join of guard criterion, w, ha => by
    rw [Step.run, Step.deeds]
    cases w.placeholder join with
    | error e => exact .refl _
    | ok joined =>
      dsimp only
      have hb := places_buildWith (idle_onJoin joined) w (w.placeholder of)
      cases hr : w.buildWith (w.placeholder of) (Query.onJoin joined) with
      | mk r w' =>
        rw [hr] at hb
        cases r with
        | error e => exact hb
        | ok subject => exact hb.trans (criterion.places subject guard w' (hb.aligned ha))
  | .filterExpression e guard criterion, w, ha => by
    rw [Step.run, Step.deeds]
    cases w.expression e with
    | error e => exact .refl _
    | ok e => exact criterion.places (filterExpression e) guard w ha
  | .hasRows sub negated, w, ha => by
    rw [Step.run, Step.deeds]
    cases w.subScope sub with
    | error e => exact .refl _
    | ok scope => exact places_hasRows ha scope negated
  | .group junction body, w, ha =>
    (Step.places_runBody body { w with query := w.query.enterGroup } ha).group ha junction _
  | .sub body bind, w, ha => by
    -- Neither an error of the body nor a missing root changes what was done in it.
    have hsub := (Step.places_runBody body { w with query := w.query.enterSub } ha.enterSub).sub
    rw [Step.run]
    dsimp only
    split
    · exact hsub
    · have hfinish := hsub.trans (idle_finishSub w.query.scopes.size _)
      split
      · next e w' hr => exact congrArg (·.2.query) hr ▸ hfinish
      · next scope w' hr => cases bind <;> exact congrArg (·.2.query) hr ▸ hfinish
  | .select of, w, _ =>
    places_buildWith (fun _ => idle_captured (fun i => (·.addProjection (.node i)))
      fun _ _ => rfl) w _
  | .selectAggregate func unique of, w, _ =>
    places_buildWith (fun _ => idle_captured (fun i => (·.addProjection (.aggregate func unique i)))
      fun _ _ => rfl) w _
  | .selectExpression e, w, _ =>
    places_buildWith (fun e q => q.places_modifyClauses
      (·.addProjection (.expression (.expression e))) fun _ => rfl) w _
  | .distinct, w, _ => w.query.places_modifyClauses (·.setDistinct true) fun _ => rfl
  | .groupBy of, w, _ =>
    places_buildWith (fun _ => idle_captured (fun i => (·.addGroup (.node i))) fun _ _ => rfl) w _
  | .groupByExpression e, w, _ =>
    places_buildWith (fun e q => q.places_modifyClauses (·.addGroup (.expression e))
      fun _ => rfl) w _
  | .orderBy of direction, w, _ =>
    places_buildWith (fun _ => idle_captured (fun i => (·.addOrder ⟨.node i, direction⟩))
      fun _ _ => rfl) w _
  | .orderByExpression e direction, w, _ =>
    places_buildWith (fun e q => q.places_modifyClauses (·.addOrder ⟨.expression e, direction⟩)
      fun _ => rfl) w _
  | .setParameter name value, w, _ => idle_setParameter name value w.query
  | .queueRows rows, w, _ => by
    rw [Step.run]
    split <;> exact .refl _
  | .attempt step, w, ha => step.places w ha
  | .compile, w, _ | .diagnostic, w, _ | .reports _, w, _ | .list _, w, _ | .unique _, w, _
  | .recorder, w, _ | .resetCount, w, _ | .checkCount _ _ _, w, _ => .refl w.query

theorem Criterion.places : (criterion : Criterion) → (subject : Subject) → (guard : Guard) →
    (w : Workspace) → w.query.Aligned →
      w.query.Places (criterion.deeds subject guard w) (criterion.run subject guard w).after.query
  | .compare op value, subject, guard, w, ha =>
    (Completion.compareValue op value).places ha subject guard
  | .compareParameter op name, subject, guard, w, ha =>
    (Completion.compareParameter op name).places ha subject guard
  | .compareProperty op body property, subject, guard, w, ha => by
    -- The body runs in the midst of the restriction, so what it does comes first.
    have hbody := Step.places_runBody body w ha
    rw [Criterion.run, Criterion.deeds]
    dsimp only
    cases (Step.runBody body w).result with
    | error e =>
      dsimp only
      rw [List.append_nil]
      exact hbody
    | ok u =>
      cases (Step.runBody body w).after.placeholder property with
      | error e => exact hbody.trans (.refl _)
      | ok p => exact hbody.trans (places_compareProperty (hbody.aligned ha) subject guard op p)
  | .compareExpression op e, subject, guard, w, ha => by
    rw [Criterion.run, Criterion.deeds, Criterion.completion?]
    · cases w.expression e with
      | error e => exact .refl _
      | ok e => exact (Completion.compareExpression op e).places ha subject guard
    · exact nofun
  | .between low high, subject, guard, w, ha =>
    (Completion.between low high).places ha subject guard
  | .oneOf values negated, subject, guard, w, ha =>
    (Completion.oneOf values negated).places ha subject guard
  | .inSub sub negated, subject, guard, w, ha => by
    rw [Criterion.run, Criterion.deeds, Criterion.completion?]
    · cases w.subScope sub with
      | error e => exact .refl _
      | ok scope => exact (Completion.inSub scope negated).places ha subject guard
    · exact nofun
  | .isNull negated, subject, guard, w, ha => (Completion.isNull negated).places ha subject guard
  | .nothing, subject, guard, w, ha => .refl w.query

/-- A body does what its steps do, up to where it ends. -/
theorem Step.places_runBody : (body : List Step) → (w : Workspace) →
    w.query.Aligned →
      w.query.Places (Step.deedsOf body w) (Step.runBody body w).after.query
  | [], w, _ => .refl w.query
  | step :: rest, w, ha => by
    have hstep := step.places w ha
    have hrest := Step.places_runBody rest (step.run w).after (hstep.aligned ha)
    rw [Step.runBody, Step.deedsOf]
    cases (step.run w).result with
    | ok outcome => exact hstep.trans hrest
    | error e =>
      cases step.isAttempt with
      | true => exact hstep.trans hrest
      | false =>
        dsimp only
        rw [List.append_nil]
        exact hstep

end

theorem places_runAll (steps : List Step) (w : Workspace)
    (ha : w.query.Aligned) :
    w.query.Places (deedsAll steps w) (runAll steps w).2.query := by
  induction steps generalizing w with
  | nil => exact .refl _
  | cons step rest ih =>
    have hstep := step.places w ha
    exact hstep.trans (ih (step.run w).after (hstep.aligned ha))

/-- What is said of the restrictions that are made from a workspace on: those of a step, of a body
and of a script land where the nesting says, whether they fail or not. -/
structure PlacesRestrictions (w : Workspace) : Prop where
  step : ∀ step : Step, w.query.Places (step.deeds w) (step.run w).after.query
  body : ∀ body, w.query.Places (Step.deedsOf body w) (Step.runBody body w).after.query
  script : ∀ steps, w.query.Places (deedsAll steps w) (runAll steps w).2.query

end Script

namespace Stage

open Script

/-- **Where restrictions land.** -/
theorem Reachable.placesRestrictions {s : Stage} (h : s.Reachable) {w : Workspace}
    (hw : w.query = s.query) : PlacesRestrictions w := by
  have ha : w.query.Aligned := hw ▸ h.sound.query.clauses_length
  exact ⟨fun step => step.places w ha, fun body => Step.places_runBody body w ha,
    fun steps => places_runAll steps w ha⟩

/-- A workspace with nothing done yet. -/
def sampleWorkspace : Workspace := ⟨.start Sample.registry .default, .none, .empty⟩

/-- A group with a test of a name, a group in it that fails after a test, an empty group, and a
sub-query with a test of its own. -/
def sampleScript : List Step :=
  [.source "Person" (some "p"),
    .group .or
      [.access "p" "name" (some "n"), .filter "n" .always (.compare .eq (.string "Ann")),
        .attempt (.group .and [.access "p" "age" (some "a"),
          .filter "a" .always (.isNull false), .select "nothing"]),
        .group .and [],
        .sub [.source "Car" (some "c"), .access "c" "model" (some "m"),
          .filter "m" .always (.isNull true)] (some "s"),
        .hasRows "s" false]]

theorem sampleScript_places : (start Sample.registry .default).Reachable ∧
    PlacesRestrictions sampleWorkspace ∧
    (runAll sampleScript sampleWorkspace).2.query.groups = [] ∧
    (runAll sampleScript sampleWorkspace).2.query.whereList 0 =
      [.group .or [.test .always (.compare (.node 1) .eq (.value (.string "Ann"))),
        .test .always (.hasRows 1 false)]] ∧
    (runAll sampleScript sampleWorkspace).2.query.whereList 1 =
      [.test .always (.isNull (.node 4) true)] := by
  have hreach : (start Sample.registry .default).Reachable := reachable_start _ _ []
  have hplaces := Reachable.placesRestrictions hreach (w := sampleWorkspace) rfl
  have hscript := hplaces.script sampleScript
  exact ⟨hreach, hplaces, hscript.groups, (hscript.lists 0).trans rfl, (hscript.lists 1).trans rfl⟩

end Stage

end PathQuery
