import PathQuery.Proofs.Run
import PathQuery.Script.Run

/-!
# Programs as runs

A program works on a query by operations inside operations, where a body is called in the midst of
what encloses it. A run has the same in a line: the beginning of a body, what it does, and its end.
Both leave the same query. This is shown for the operations that take a body, and for every script,
so that what holds of the stages that can be reached holds of what scripts build.

Main statement: `Script.exists_reachable`.
-/

namespace PathQuery

namespace Query

/-- Whether events lead from one query to another, whatever bodies are running around. -/
def Becomes (q q' : Query) : Prop :=
  ∀ frames issued, ∃ es issued', (Stage.mk q frames issued).run es = ⟨q', frames, issued'⟩

namespace Becomes

variable {q q₁ q₂ : Query}

theorem refl (q : Query) : q.Becomes q := fun _ issued => ⟨[], issued, rfl⟩

theorem trans (h₁ : q.Becomes q₁) (h₂ : q₁.Becomes q₂) : q.Becomes q₂ := by
  intro frames issued
  obtain ⟨es, issued₁, hes⟩ := h₁ frames issued
  obtain ⟨fs, issued₂, hfs⟩ := h₂ frames issued₁
  exact ⟨es ++ fs, issued₂, by rw [Stage.run_append, hes, hfs]⟩

theorem call (c : Call) (q : Query) : q.Becomes (c.run q).2 := fun _ issued =>
  ⟨[.call c], issued, rfl⟩

/-- An operation leads where the call that stands for it leads, whatever its result. -/
theorem operation {α : Type} {x : Build α} (c : Call) (hc : c.run = do let _ ← x; return ())
    (q : Query) : q.Becomes (x q).2 := by
  have hq := call c q
  rw [hc] at hq
  cases hx : x q with
  | mk r q' =>
    cases r with
    | ok a => rwa [Build.bind_of_ok hx] at hq
    | error e => rwa [Build.bind_of_error hx] at hq

/-! ## Bodies -/

theorem group (h : q.enterGroup.Becomes q₁) (junction : Junction) (succeeded : Bool) :
    q.Becomes (q₁.leaveGroup junction succeeded) := by
  intro frames issued
  obtain ⟨es, issued₁, hes⟩ := h (.group junction :: frames) issued
  refine ⟨.enterGroup junction :: (es ++ [.leaveGroup succeeded]), issued₁, ?_⟩
  rw [Stage.run_cons, Stage.run_append]
  simp only [Stage.step, hes, Stage.run_cons, Stage.run_nil]

theorem failedSub (h : q.enterSub.Becomes q₁) : q.Becomes (q₁.leaveSub q.scopes.size) := by
  intro frames issued
  obtain ⟨es, issued₁, hes⟩ := h (.sub q.scopes.size :: frames) issued
  refine ⟨.enterSub :: (es ++ [.leaveSub false]), issued₁, ?_⟩
  rw [Stage.run_cons, Stage.run_append]
  simp only [Stage.step, hes, Stage.run_cons, Stage.run_nil]
  rfl

theorem sub (h : q.enterSub.Becomes q₁) :
    q.Becomes (finishSub q.scopes.size (q₁.leaveSub q.scopes.size)).2 := by
  intro frames issued
  obtain ⟨es, issued₁, hes⟩ := h (.sub q.scopes.size :: frames) issued
  have hclose : ∃ issued₂, (Stage.mk q₁ (.sub q.scopes.size :: frames) issued₁).closeSub
      q.scopes.size frames true =
        ⟨(finishSub q.scopes.size (q₁.leaveSub q.scopes.size)).2, frames, issued₂⟩ := by
    unfold Stage.closeSub
    dsimp only
    rw [if_pos rfl]
    cases finishSub q.scopes.size (q₁.leaveSub q.scopes.size) with
    | mk r q₂ => cases r <;> exact ⟨_, rfl⟩
  obtain ⟨issued₂, hclose⟩ := hclose
  refine ⟨.enterSub :: (es ++ [.leaveSub true]), issued₂, ?_⟩
  rw [Stage.run_cons, Stage.run_append]
  simp only [Stage.step, hes, Stage.run_cons, Stage.run_nil]
  exact hclose

/-! ## Restrictions -/

variable {opening : Opening} {subject : Subject}

theorem restrict (ho : opening.subject q = (.ok subject, q₁)) (guard : Guard)
    (completion : Completion) : q.Becomes (completion.run subject guard q₁).2 := by
  have hq := call (.restrict opening guard completion) q
  rw [Call.run, Build.bind_of_ok ho] at hq
  exact hq

/-- A restriction may be started and not be completed. -/
theorem started {r : Except Error Subject} (ho : opening.subject q = (r, q₁)) : q.Becomes q₁ := by
  have hq := call (.restrict opening .always .nothing) q
  rw [Call.run] at hq
  cases r with
  | ok subject =>
    rw [Build.bind_of_ok ho] at hq
    exact hq
  | error e => rwa [Build.bind_of_error ho] at hq

theorem comparison (ho : opening.subject q = (.ok subject, q₁)) (h : q₁.Becomes q₂)
    (guard : Guard) (op : Comparison) (p : Placeholder) :
    q.Becomes (compareProperty subject guard op p q₂).2 := by
  intro frames issued
  obtain ⟨es, issued₁, hes⟩ := h (.comparison subject guard op :: frames) issued
  refine ⟨.enterComparison opening guard op :: (es ++ [.leaveComparison (some p)]), issued₁, ?_⟩
  rw [Stage.run_cons, Stage.run_append]
  simp only [Stage.step, ho, hes, Stage.run_cons, Stage.run_nil]

end Becomes

/-! ## Operations with a body -/

/-- A group does what the events of its body do. -/
theorem becomes_group {body : Build Unit} (h : ∀ q : Query, q.Becomes (body q).2)
    (junction : Junction) (q : Query) : q.Becomes (Query.group junction body q).2 :=
  (h q.enterGroup).group junction (body q.enterGroup).1.isOk

/-- A sub-query does what the events of its body do. -/
theorem becomes_sub {body : Build Unit} (h : ∀ q : Query, q.Becomes (body q).2) (q : Query) :
    q.Becomes (Query.sub body q).2 := by
  have hbody := h q.enterSub
  unfold Query.sub
  dsimp only
  cases hr : body q.enterSub with
  | mk r q₁ =>
    rw [hr] at hbody
    cases r with
    | ok u => exact hbody.sub
    | error e => exact hbody.failedSub

end Query

/-! ## Scripts -/

namespace Script

open Query Workspace

theorem query_withPlaceholder (bind : Option String)
    (r : Except Error Placeholder × Workspace) :
    (withPlaceholder bind r).after.query = r.2.query := by
  unfold withPlaceholder
  split
  · rfl
  · cases bind <;> rfl

/-- An operation that something has to be looked up for. -/
theorem becomes_buildWith {α β : Type} {q : Query} {w : Workspace} {f : α → Build β}
    (hw : q.Becomes w.query) (h : ∀ a, q.Becomes (f a w.query).2) (a : Except Error α) :
    q.Becomes (w.buildWith a f).2.query := by
  cases a with
  | ok a => exact h a
  | error e => exact hw

theorem ok_of_buildWith {α β : Type} {w w' : Workspace} {a : Except Error α} {f : α → Build β}
    {b : β} (h : w.buildWith a f = (.ok b, w')) : ∃ a, f a w.query = (.ok b, w'.query) := by
  cases a with
  | ok a =>
    obtain ⟨hr, rfl⟩ := Prod.ext_iff.1 h
    exact ⟨a, Prod.ext hr rfl⟩
  | error e => cases h

/-- The start of a restriction on something that has to be looked up, and what follows it. -/
theorem becomes_restriction {α : Type} {w : Workspace} {a : Except Error α} {f : α → Opening}
    {next : Subject → Workspace → Ran Outcome}
    (h : ∀ a s w', (f a).subject w.query = (.ok s, w'.query) →
      w.query.Becomes (next s w').after.query) :
    w.query.Becomes (match w.buildWith a fun a => (f a).subject with
      | (.error e, w) => ran (.error e, w)
      | (.ok s, w) => next s w).after.query := by
  have hb := becomes_buildWith (.refl w.query)
    (fun a => .started (Prod.eta ((f a).subject w.query)).symm) a
  split
  · next e w' hr => rwa [hr] at hb
  · next s w' hr =>
    obtain ⟨a, ho⟩ := ok_of_buildWith hr
    exact h a s w' ho

mutual

theorem Step.becomes : (step : Step) → (w : Workspace) → w.query.Becomes (step.run w).after.query
  | .source type bind, w => by
    rw [Step.run, query_withPlaceholder]
    exact .operation (.addFrom type) rfl w.query
  | .access owner property bind, w => by
    rw [Step.run, query_withPlaceholder]
    exact becomes_buildWith (.refl _) (fun p => .operation (.access p property) rfl w.query) _
  | .drain, w => .operation .drain rfl w.query
  | .operand of bind, w => by
    have hb := becomes_buildWith (.refl w.query) (fun p => .operation (.operand p) rfl w.query)
      (w.placeholder of)
    rw [Step.run]
    split
    · next e w' hr => rwa [hr] at hb
    · next node w' hr =>
      rw [hr] at hb
      cases bind <;> exact hb
  | .join of type bind, w => by
    rw [Step.run, query_withPlaceholder]
    exact becomes_buildWith (.refl _) (fun p => .operation (.join p type) rfl w.query) _
  | .filter of guard criterion, w => by
    rw [Step.run]
    exact becomes_restriction fun p s w' ho => criterion.becomes (.filter p) ho guard
  | .onJoin join of guard criterion, w => by
    rw [Step.run]
    split
    · exact .refl _
    · next joined hj =>
      exact becomes_restriction fun p s w' ho => criterion.becomes (.onJoin joined p) ho guard
  | .filterExpression e guard criterion, w => by
    rw [Step.run]
    split
    · exact .refl _
    · next e' he => exact criterion.becomes (.expression e') rfl guard
  | .hasRows sub negated, w =>
    becomes_buildWith (.refl _) (fun s => .call (.hasRows s negated) w.query) _
  | .group junction body, w =>
    (Step.becomes_runBody body { w with query := w.query.enterGroup }).group junction _
  | .sub body bind, w => by
    have hbody := Step.becomes_runBody body { w with query := w.query.enterSub }
    rw [Step.run]
    dsimp only
    split
    · exact hbody.failedSub
    · have hsub := hbody.sub
      split
      · next e w' hr => exact congrArg (·.2.query) hr ▸ hsub
      · next scope w' hr =>
        cases bind <;> exact congrArg (·.2.query) hr ▸ hsub
  | .select of, w => becomes_buildWith (.refl _) (fun p => .call (.select p) w.query) _
  | .selectAggregate func unique of, w =>
    becomes_buildWith (.refl _) (fun p => .call (.selectAggregate func unique p) w.query) _
  | .selectExpression e, w =>
    becomes_buildWith (.refl _) (fun e => .call (.selectExpression e) w.query) _
  | .distinct, w => .call .distinct w.query
  | .groupBy of, w => becomes_buildWith (.refl _) (fun p => .call (.groupBy p) w.query) _
  | .groupByExpression e, w =>
    becomes_buildWith (.refl _) (fun e => .call (.groupByExpression e) w.query) _
  | .orderBy of direction, w =>
    becomes_buildWith (.refl _) (fun p => .call (.orderBy p direction) w.query) _
  | .orderByExpression e direction, w =>
    becomes_buildWith (.refl _) (fun e => .call (.orderByExpression e direction) w.query) _
  | .setParameter name value, w => .call (.setParameter name value) w.query
  | .queueRows rows, w => by
    rw [Step.run]
    split <;> exact .refl _
  | .attempt step, w => step.becomes w
  | .compile, w | .diagnostic, w | .reports _, w | .list _, w | .unique _, w | .recorder, w
  | .resetCount, w | .checkCount _ _ _, w => .refl w.query

/-- What completes a restriction, together with what started it. -/
theorem Criterion.becomes {q : Query} {subject : Subject} : (criterion : Criterion) →
    (opening : Opening) → {w : Workspace} → opening.subject q = (.ok subject, w.query) →
      (guard : Guard) → q.Becomes (criterion.run subject guard w).after.query
  | .compare op value, opening, w, ho, guard => .restrict ho guard (.compareValue op value)
  | .compareParameter op name, opening, w, ho, guard =>
    .restrict ho guard (.compareParameter op name)
  | .compareProperty op body property, opening, w, ho, guard => by
    have hstart := Becomes.started ho
    have hbody := Step.becomes_runBody body w
    rw [Criterion.run]
    dsimp only
    split
    · exact hstart.trans hbody
    · exact becomes_buildWith (hstart.trans hbody) (fun p => .comparison ho hbody guard op p) _
  | .compareExpression op e, opening, w, ho, guard =>
    becomes_buildWith (.started ho)
      (fun e => .restrict ho guard (.compareExpression op e)) _
  | .between low high, opening, w, ho, guard => .restrict ho guard (.between low high)
  | .oneOf values negated, opening, w, ho, guard => .restrict ho guard (.oneOf values negated)
  | .inSub sub negated, opening, w, ho, guard =>
    becomes_buildWith (.started ho)
      (fun s => .restrict ho guard (.inSub s negated)) _
  | .isNull negated, opening, w, ho, guard => .restrict ho guard (.isNull negated)
  | .nothing, opening, w, ho, guard => .started ho

theorem Step.becomes_runBody : (body : List Step) → (w : Workspace) →
    w.query.Becomes (Step.runBody body w).after.query
  | [], w => .refl w.query
  | step :: rest, w => by
    have hstep := step.becomes w
    rw [Step.runBody]
    dsimp only
    split
    · exact hstep
    · exact hstep.trans (Step.becomes_runBody rest _)

end

theorem becomes_runAll (steps : List Step) (w : Workspace) :
    w.query.Becomes (runAll steps w).2.query := by
  induction steps generalizing w with
  | nil => exact .refl _
  | cons step rest ih => exact (step.becomes w).trans (ih _)

/-- **Scripts are runs.** The query that a script builds is one of a stage that can be reached, in
which no body is running. -/
theorem exists_reachable (schema : Registry) (settings : Settings) (recorder : Recorder)
    (steps : List Step) : ∃ s : Stage, s.Reachable ∧ s.frames = [] ∧
      s.query = (runAll steps ⟨.start schema settings, .none, recorder⟩).2.query := by
  obtain ⟨es, issued, hes⟩ := becomes_runAll steps ⟨.start schema settings, .none, recorder⟩ [] []
  refine ⟨_, Stage.reachable_start schema settings es, ?_⟩
  have hrun : (Stage.start schema settings).run es = ⟨_, [], issued⟩ := hes
  rw [hrun]
  exact ⟨rfl, rfl⟩

end Script

end PathQuery
