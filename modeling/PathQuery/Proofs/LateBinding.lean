import PathQuery.Proofs.Renaming

/-!
# Late binding

Parameters are bound when a query is compiled, so setting one counts through the binding that is
there at the end, and only for what the clauses name.

A run is divided into what it *builds*, which reads no binding, and its *settings*. The query at the
end is the one that the first part builds, with the settings in front of its bindings, the last one
first (`run_eq_retune`). So two runs that build the same come to queries that differ in the
bindings only (`run_query_eq`).

**The place of a setting** does not count. Runs in which each name is set last to the same value are
compiled to the same result.

**Names that nothing asks for** give away nothing but that they are reserved. A query is compiled to
the same error or to the same text with the same values, up to the names of generated placeholders
(`SameUpToNames`).

Main statement: `run_bindsLate`.
-/

namespace PathQuery

/-! ## Settings of a run -/

/-- The part of a run that sets no parameter. -/
def building (es : List Event) : List Event := es.filter (·.setting?.isNone)

/-- The bindings that a run makes, the last one first. -/
def bindingsOf (es : List Event) : Bindings := (es.filterMap Event.setting?).reverse

/-- The value that a run sets last for a name. -/
def lastSet (es : List Event) (name : String) : Option Value := (bindingsOf es).get? name

theorem bindingsOf_cons_of_none {e : Event} (he : e.setting? = none) (es : List Event) :
    bindingsOf (e :: es) = bindingsOf es := by
  rw [bindingsOf, List.filterMap_cons_none he]
  rfl

theorem bindingsOf_cons_of_some {e : Event} {p : String × Value} (he : e.setting? = some p)
    (es : List Event) : bindingsOf (e :: es) = bindingsOf es ++ [p] := by
  rw [bindingsOf, List.filterMap_cons_some he, List.reverse_cons]
  rfl

theorem Bindings.get?_append (b b' : Bindings) (name : String) :
    Bindings.get? (b ++ b') name = (b.get? name).or (b'.get? name) :=
  List.lookup_append

namespace Stage

variable {s : Stage} {es fs : List Event}

/-- Setting a parameter puts a binding in front. -/
theorem step_of_setting {e : Event} {p : String × Value} (he : e.setting? = some p) :
    s.step e = s.retune (p :: ·) id := by
  rw [Event.eq_of_setting? he]
  rfl

/-- A run comes to what it builds, with its settings in front of the bindings. -/
theorem run_eq_retune (s : Stage) (es : List Event) :
    s.run es = (s.run (building es)).retune (bindingsOf es ++ ·) id := by
  -- What is built does not read the bindings in front.
  have hblind : ∀ (es : List Event) (s : Stage) (b : Bindings → Bindings),
      (s.retune b id).run (building es) = (s.run (building es)).retune b id := by
    intro es
    induction es with
    | nil => exact fun _ _ => rfl
    | cons e es ih =>
      intro s b
      cases he : e.setting? with
      | none =>
        rw [building, List.filter_cons_of_pos (by rw [he]; rfl), run_cons, run_cons,
          step_retune b id s he]
        exact ih _ b
      | some p =>
        rw [building, List.filter_cons_of_neg (by rw [he]; exact Bool.false_ne_true)]
        exact ih s b
  induction es generalizing s with
  | nil => rfl
  | cons e es ih =>
    cases he : e.setting? with
    | none =>
      rw [building, List.filter_cons_of_pos (by rw [he]; rfl), run_cons, run_cons,
        bindingsOf_cons_of_none he]
      exact ih _
    | some p =>
      rw [building, List.filter_cons_of_neg (by rw [he]; exact Bool.false_ne_true), run_cons, ih,
        step_of_setting he, hblind, bindingsOf_cons_of_some he]
      simp [retune, Query.retune, building]

/-- Runs that build the same come to queries that differ in the bindings only. -/
theorem run_query_eq (h : building fs = building es) :
    (s.run fs).query = (s.run es).query.retune (fun _ => (s.run fs).query.bindings) id := by
  rw [run_eq_retune s fs, run_eq_retune s es, h]
  rfl

/-- A name that two runs set last to the same value is bound to the same value after them. -/
theorem get?_run (h : building fs = building es) {name : String}
    (hlast : lastSet fs name = lastSet es name) :
    (s.run fs).query.bindings.get? name = (s.run es).query.bindings.get? name := by
  have hget : ∀ es, (s.run es).query.bindings.get? name =
      (lastSet es name).or ((s.run (building es)).query.bindings.get? name) := by
    intro es
    rw [run_eq_retune]
    exact Bindings.get?_append ..
  rw [hget fs, hget es, h, hlast]

end Stage

/-! ## Compiling under other bindings -/

namespace Query

/-- Whether a query gives the same error as another one, or the same text with the same values, up
to the names of generated placeholders. -/
structure SameUpToNames (q q' : Query) : Prop where
  error : ∀ {e}, q.compile = .error e → q'.compile = .error e
  /-- Without names all sections are the same, and so is the shape. -/
  unnamed : q.settings.parameterStyle ≠ .named → ∀ {c}, q.compile = .ok c →
    ∃ ps, q'.compile = .ok { c with parameters := ps } ∧ ps.map (·.value) = c.values
  named : q.settings.parameterStyle = .named → ∀ {c}, q.compile = .ok c →
    ∃ c' ρ, q'.compile = .ok c' ∧ c'.values = c.values ∧ c'.shape = c.shape ∧
      c.Renamed q.bindings q'.bindings q.rendered.fragment.literals q.rendered.fragment.slots
        q.slotNames ρ c'

variable {q : Query} {b : Bindings}

/-- Bindings that agree on every name give the same result. -/
theorem compile_retune_eq (h : ∀ name, b.get? name = q.bindings.get? name) :
    (q.retune (fun _ => b) id).compile = q.compile := by
  have hsame := Draft.compile_rebind h q.settings.parameterStyle
  rw [compile, compile, ← hsame]
  rfl

/-- Bindings that agree on the names that the clauses ask for give the same result up to the names
of generated placeholders. -/
theorem sameUpToNames_retune (h : ∀ name, q.Asks name → b.get? name = q.bindings.get? name)
    (hs : ParameterList.Follow q.bindings q.rendered.fragment.slots)
    (hs' : ParameterList.Follow b q.rendered.fragment.slots) :
    q.SameUpToNames (q.retune (fun _ => b) id) := by
  by_cases hp : q.pending.isEmpty = true
  · have hold : q.compile = q.toDraft.compile q.settings.parameterStyle := if_pos hp
    have hnew : (q.retune (fun _ => b) id).compile =
        (q.toDraft.rebind b).compile q.settings.parameterStyle := if_pos hp
    refine ⟨fun {e} he => ?_, fun hstyle {c} hc => ?_, fun hstyle {c} hc => ?_⟩
    · rw [hnew]
      exact Draft.compile_rebind_error h (hold ▸ he)
    · rw [hnew]
      exact Draft.compile_rebind_of_ne_named h hstyle (hold ▸ hc)
    · rw [hold, hstyle] at hc
      obtain ⟨c', ρ, hc', hshape, hrenamed⟩ := Draft.compile_rebind_named h hs hs' hc
      exact ⟨c', ρ, by rw [hnew, hstyle]; exact hc', hrenamed.values, hshape, hrenamed⟩
  · have hold : q.compile = .error (.danglingAccess q.pendingPaths) := if_neg hp
    have hnew : (q.retune (fun _ => b) id).compile = .error (.danglingAccess q.pendingPaths) :=
      if_neg hp
    refine ⟨fun he => by rw [hnew, ← hold, he], fun _ {c} hc => ?_, fun _ {c} hc => ?_⟩ <;>
      · rw [hold] at hc
        cases hc

end Query

/-! ## Runs -/

namespace Stage

/-- Whether setting parameters counts only through what is bound in the end. Other runs are compared
that build the same. -/
structure BindsLate (s : Stage) (es : List Event) : Prop where
  /-- If each name is set last to the same value, the result is the same. -/
  moved : ∀ fs, building fs = building es → (∀ name, lastSet fs name = lastSet es name) →
    (s.run fs).query.compile = (s.run es).query.compile
  /-- If this is so for the names that the clauses ask for, the result is the same up to the names
  of generated placeholders. -/
  unasked : ∀ fs, building fs = building es →
    (∀ name, (s.run es).query.Asks name → lastSet fs name = lastSet es name) →
    (s.run es).query.SameUpToNames (s.run fs).query

/-- **Bindings count in the end, and by the names that are asked for.** -/
theorem run_bindsLate (schema : Registry) (c : Settings) (es : List Event) :
    (start schema c).BindsLate es := by
  have hfollow : ∀ es, ParameterList.Follow ((start schema c).run es).query.bindings
      ((start schema c).run es).query.rendered.fragment.slots := fun es =>
    (reachable_start schema c es).sound.query.follow
  refine ⟨fun fs h hlast => ?_, fun fs h hlast => ?_⟩
  · rw [run_query_eq h]
    exact Query.compile_retune_eq fun name => get?_run h (hlast name)
  · have hget := fun name hn => get?_run (s := start schema c) h (hlast name hn)
    have hslots := hfollow fs
    have hrendered : ((start schema c).run fs).query.rendered =
        ((start schema c).run es).query.rendered := by
      rw [run_query_eq h]
      exact Draft.rendered_rebind hget
    rw [hrendered] at hslots
    rw [run_query_eq h]
    exact Query.sameUpToNames_retune hget (hfollow es) hslots

/-- Setting a parameter that nothing asks for moves a generated name out of its way. -/
example :
    let s := (start Sample.registry { Settings.default with parameterStyle := .named }).run
      [.call (.addFrom "Person"), .call (.access ⟨0, .root⟩ "name"),
        .call (.restrict (.filter ⟨1, .property⟩) .always (.compareValue .eq (.string "Ada")))]
    s.query.compile.map (·.text) = .ok "from Person hobj1 where hobj1.name = :p1" ∧
      (s.run [.call (.setParameter "p1" (.int 1))]).query.compile.map (·.text) =
        .ok "from Person hobj1 where hobj1.name = :p2" := by
  decide +kernel

end Stage

end PathQuery
