import PathQuery.Proofs.Tuning

/-!
# The style of parameters

Nothing that builds a query reads the style that its parameters are to be written in. So a program
does the same in every style, step by step, and comes to the same query; the style counts only when
that is compiled.

Main statement: `run_withStyle`.
-/

namespace PathQuery

/-- The query with its parameters in another style. -/
def Query.withStyle (q : Query) (style : ParameterStyle) : Query :=
  { q with settings := { q.settings with parameterStyle := style } }

namespace Stage

/-- The stage with the parameters of its query in another style. -/
def withStyle (s : Stage) (style : ParameterStyle) : Stage :=
  { s with query := s.query.withStyle style }

variable (style : ParameterStyle)

/-- An event does the same in every style. -/
theorem step_withStyle (s : Stage) (e : Event) :
    (s.withStyle style).step e = (s.step e).withStyle style := by
  cases he : e.setting? with
  | none => exact step_retune id (fun c => { c with parameterStyle := style }) s he
  | some setting =>
    rw [Event.eq_of_setting? he]
    rfl

/-- **A run does the same in every style.** -/
theorem run_withStyle (s : Stage) (es : List Event) :
    (s.withStyle style).run es = (s.run es).withStyle style := by
  induction es generalizing s with
  | nil => rfl
  | cons e es ih => rw [run_cons, step_withStyle, ih, run_cons]

theorem Reachable.withStyle {s : Stage} (h : s.Reachable) : (s.withStyle style).Reachable := by
  obtain ⟨schema, settings, es, -, rfl⟩ := h
  rw [← run_withStyle]
  exact reachable_start schema { settings with parameterStyle := style } es

end Stage

end PathQuery
