import PathQuery.Proofs.Invariant

/-!
# What holds at every stage

A stage is `Sound` when its query is, every sub-query that was handed out has a root, and the
running bodies are `Nested`: the bodies of sub-queries are the scopes from the current one
outwards, and every open group and every subject that waits for its right side fits the scope it
is open in.

Main statements: `Sound.step`, that an event keeps all of it and takes nothing away, and from it
`ReachableBy.sound` and `Sound.run`.
-/

namespace PathQuery

open Relation

/-- What the end of a sub-query gives: an error, which may use up the pending accesses, or its
scope, which has a root. -/
theorem Query.finishSub_cases (scope : Nat) (q : Query) :
    (∃ e pending, finishSub scope q = (.error e, { q with pending := pending })) ∨
      (finishSub scope q = (.ok scope, q) ∧ q.scopes.roots scope ≠ []) := by
  unfold finishSub
  split
  · exact Or.inl ⟨_, .none, rfl⟩
  · split
    · exact Or.inl ⟨_, q.pending, rfl⟩
    · next hroots => exact Or.inr ⟨rfl, by simpa using hroots⟩

/-- After the innermost group is closed, its members are added as one condition or not at all. They
fit, so the group of them does. -/
theorem Query.changes_leaveGroup {h : Handles} {q : Query} {members : List Condition}
    {groups : List (List Condition)} (hg : q.groups = members :: groups)
    (fits : ∀ c ∈ members, c.Fits (q.site h)) (junction : Junction) (succeeded : Bool) :
    ReflTransGen (Change h) { q with groups := groups } (q.leaveGroup junction succeeded) := by
  rw [leaveGroup, hg]
  dsimp only
  split
  · refine .single (.add (.filter (.group junction members)) ⟨by simp [Addition.items], ?_, by simp⟩)
    intro c hc t ht
    rw [List.mem_singleton.1 hc, Condition.tests] at ht
    obtain ⟨m, hm, ht⟩ := Condition.mem_testsOf.1 ht
    exact fits m hm t ht
  · exact .refl

/-! ## Running bodies -/

/-- The running bodies of a query whose current scope is given, with its open groups and those of
the scopes around it. -/
inductive Nested (h : Nat → Handles) (g : Graph) (t : Scopes) :
    Nat → List Frame → List (List Condition) → List (List (List Condition)) → Prop
  | outermost : Nested h g t 0 [] [] []
  | group {s fs groups suspended members} (junction : Junction)
    (fits : ∀ c ∈ members, c.Fits ⟨h s, g, t, s⟩) (rest : Nested h g t s fs groups suspended) :
    Nested h g t s (.group junction :: fs) (members :: groups) suspended
  | sub {s p fs groups suspended} (outer : t.outer? s = some p)
    (rest : Nested h g t p fs groups suspended) :
    Nested h g t s (.sub s :: fs) [] (groups :: suspended)
  | comparison {s fs groups suspended subject} (guard : Guard) (op : Comparison)
    (fits : subject.Fits ⟨h s, g, t, s⟩) (rest : Nested h g t s fs groups suspended) :
    Nested h g t s (.comparison subject guard op :: fs) groups suspended

namespace Nested

variable {h h' : Nat → Handles} {g g' : Graph} {t t' : Scopes} {s : Nat} {fs : List Frame}
  {groups : List (List Condition)} {suspended : List (List (List Condition))}

theorem grows (hn : Nested h g t s fs groups suspended) (hh : ∀ s, (h s).Le (h' s))
    (ho : Owned g t) (ho' : Owned g' t') (hg : g.Extends g') (ht : t.Extends t')
    (hs : s < t.size) : Nested h' g' t' s fs groups suspended := by
  have hw : ∀ {s}, s < t.size → Site.Grows ⟨h s, g, t, s⟩ ⟨h' s, g', t', s⟩ := fun {s} hs =>
    ⟨(hh s).expression, (hh s).sub, hg, ht, ho, ho', rfl, hs⟩
  induction hn with
  | outermost => exact .outermost
  | group junction fits _ ih =>
    exact .group junction (fun c hc => (fits c hc).grows (hw hs)) (ih hs)
  | sub outer _ ih =>
    have hp := Scopes.outer?_lt outer
    exact .sub ((ht.outer?_eq hs).trans outer) (ih (Nat.lt_trans hp hs))
  | comparison guard op fits _ ih => exact .comparison guard op (fits.grows (hw hs)) (ih hs)

/-- A condition that fits may be added to the innermost group. -/
theorem concat {members : List Condition} {c : Condition}
    (hn : Nested h g t s fs (members :: groups) suspended) (hc : c.Fits ⟨h s, g, t, s⟩) :
    Nested h g t s fs ((members ++ [c]) :: groups) suspended := by
  generalize hgs : members :: groups = gs at hn
  induction hn with
  | outermost | sub => cases hgs
  | group junction fits rest _ =>
    cases hgs
    refine .group junction (fun x hx => ?_) rest
    rcases List.mem_append.1 hx with hx | hx
    · exact fits x hx
    · exact List.mem_singleton.1 hx ▸ hc
  | comparison guard op fits _ ih => exact .comparison guard op fits (ih hc hgs)

theorem of_group {junction : Junction}
    (hn : Nested h g t s (.group junction :: fs) groups suspended) :
    ∃ members rest, groups = members :: rest ∧ (∀ c ∈ members, c.Fits ⟨h s, g, t, s⟩) ∧
      Nested h g t s fs rest suspended := by
  cases hn with
  | group _ fits hn => exact ⟨_, _, rfl, fits, hn⟩

theorem of_sub {i : Nat} (hn : Nested h g t s (.sub i :: fs) groups suspended) :
    ∃ p outer rest, i = s ∧ suspended = outer :: rest ∧ t.outer? s = some p ∧
      Nested h g t p fs outer rest := by
  cases hn with
  | sub outer hn => exact ⟨_, _, _, rfl, rfl, outer, hn⟩

theorem of_comparison {subject : Subject} {guard : Guard} {op : Comparison}
    (hn : Nested h g t s (.comparison subject guard op :: fs) groups suspended) :
    subject.Fits ⟨h s, g, t, s⟩ ∧ Nested h g t s fs groups suspended := by
  cases hn with
  | comparison _ _ fits hn => exact ⟨fits, hn⟩

end Nested

theorem Event.Within.mono {h h' : Handles} {e : Event} (he : e.Within h) (hh : h.Le h') :
    e.Within h' :=
  ⟨fun x hx => hh.expression (he.1 x hx), fun scope hs => hh.sub (he.2 scope hs)⟩

/-- What holds of a stage. -/
structure Stage.Sound (h : Nat → Handles) (s : Stage) : Prop where
  query : s.query.Sound h
  nested : Nested h s.query.graph s.query.scopes s.query.current s.frames s.query.groups
    s.query.suspended
  issued : ∀ sub ∈ s.issued, s.query.scopes.roots sub ≠ []

/-! ## Sound stages -/

namespace Stage

variable {h h' : Nat → Handles} {s : Stage}

/-- The end of a sub-query may use up the pending accesses. -/
theorem query_closeSub (s : Stage) (scope : Nat) (rest : List Frame) (succeeded : Bool) :
    ∃ p, (s.closeSub scope rest succeeded).query =
      { s.query.leaveSub scope with pending := p } := by
  rw [closeSub]
  dsimp only
  split
  · rcases Query.finishSub_cases scope (s.query.leaveSub scope) with ⟨e, p, heq⟩ | ⟨heq, -⟩
    · rw [heq]
      exact ⟨p, rfl⟩
    · rw [heq]
      exact ⟨_, rfl⟩
  · exact ⟨_, rfl⟩

theorem sound_start (h : Nat → Handles) (schema : Registry) (settings : Settings) :
    (start schema settings).Sound h where
  query := Query.sound_start h schema settings
  nested := .outermost
  issued := fun _ hs => nomatch hs

namespace Sound

theorem mono (hs : s.Sound h) (hh : ∀ scope, (h scope).Le (h' scope)) : s.Sound h' where
  query := hs.query.mono hh
  nested := hs.nested.grows hh hs.query.owned hs.query.owned (.refl _) (.refl _)
    s.query.scopes.current_lt
  issued := hs.issued

/-- A change of the query under the running bodies. -/
theorem change {q q' : Query} {fs : List Frame} {is : List Nat}
    (hs : Sound h ⟨q, fs, is⟩) (hc : Query.Change (h q.current) q q') :
    Sound h ⟨q', fs, is⟩ where
  query := hs.query.change hc
  issued sub hsub := by
    obtain ⟨r, hr⟩ := List.exists_mem_of_ne_nil _ (hs.issued sub hsub)
    exact List.ne_nil_of_mem (hc.extends.scopes.roots hr)
  nested := by
    have hn := hs.nested.grows (fun _ => .refl _) hs.query.owned (hc.owned hs.query.owned)
      hc.extends.graph hc.extends.scopes q.scopes.current_lt
    rw [← show q'.current = q.current from hc.current_eq] at hn
    cases hc with
    | add a fits =>
      rcases q.add_eq a with heq | ⟨c, members, rest, rfl, hg, heq⟩
      · rw [heq] at hn ⊢
        exact hn
      · rw [heq] at hn ⊢
        rw [show q.groups = members :: rest from hg] at hn
        exact hn.concat (fits.conditions c (by simp [Addition.conditions]))
    | _ => exact hn

theorem changes {q q' : Query} {fs : List Frame} {is : List Nat}
    (hs : Sound h ⟨q, fs, is⟩) (hc : ReflTransGen (Query.Change (h q.current)) q q') :
    Sound h ⟨q', fs, is⟩ := by
  induction hc with
  | refl => exact hs
  | tail hbefore hc ih => exact ih.change (Query.current_of_changes hbefore ▸ hc)

end Sound

/-! ## What an event does -/

/-- Whether a stage has all that another one has. -/
structure Extends (s s' : Stage) : Prop where
  query : s.query.Extends s'.query
  issued : s.issued ⊆ s'.issued

theorem Extends.refl (s : Stage) : s.Extends s := ⟨.refl _, List.Subset.refl _⟩

theorem Extends.trans {s s' s'' : Stage} (h₁ : s.Extends s') (h₂ : s'.Extends s'') :
    s.Extends s'' :=
  ⟨h₁.query.trans h₂.query, List.Subset.trans h₁.issued h₂.issued⟩

/-- Whether a stage is sound and has all that another one has. -/
structure Follows (h : Nat → Handles) (s s' : Stage) : Prop where
  sound : s'.Sound h
  kept : s.Extends s'

namespace Sound

variable {q q' : Query} {fs rest : List Frame} {is : List Nat}

theorem follows_changes (hs : Sound h ⟨q, fs, is⟩)
    (hc : ReflTransGen (Query.Change (h q.current)) q q') :
    Follows h ⟨q, fs, is⟩ ⟨q', fs, is⟩ :=
  ⟨hs.changes hc, Query.extends_of_changes hc, List.Subset.refl _⟩

theorem enterGroup (hs : Sound h ⟨q, fs, is⟩) (junction : Junction) :
    Follows h ⟨q, fs, is⟩ ⟨q.enterGroup, .group junction :: fs, is⟩ := by
  refine ⟨⟨⟨hs.query.owned, hs.query.numbered, hs.query.clauses_length, hs.query.clauses,
    hs.query.entities⟩, ?_, hs.issued⟩, ⟨.refl _, .refl _, rfl⟩, List.Subset.refl _⟩
  exact .group junction (fun c hc => nomatch hc) hs.nested

theorem leaveGroup {junction : Junction} (hs : Sound h ⟨q, .group junction :: rest, is⟩)
    (succeeded : Bool) :
    Follows h ⟨q, .group junction :: rest, is⟩ ⟨q.leaveGroup junction succeeded, rest, is⟩ := by
  obtain ⟨members, groups, hg, fits, hn⟩ := hs.nested.of_group
  have hpop : Sound h ⟨{ q with groups := groups }, rest, is⟩ :=
    ⟨⟨hs.query.owned, hs.query.numbered, hs.query.clauses_length, hs.query.clauses,
      hs.query.entities⟩, hn, hs.issued⟩
  have hfol := hpop.follows_changes (Query.changes_leaveGroup hg fits junction succeeded)
  have hext := hfol.kept.query
  exact ⟨hfol.sound, ⟨hext.graph, hext.scopes, hext.schema⟩, hfol.kept.issued⟩

theorem enterSub (hs : Sound h ⟨q, fs, is⟩) :
    Follows h ⟨q, fs, is⟩ ⟨q.enterSub, .sub q.scopes.size :: fs, is⟩ := by
  have hext := q.scopes.extends_enter
  have houter : q.scopes.enter.outer? q.scopes.size = some q.current := by
    rw [Scopes.outer?_enter, if_pos rfl]
    rfl
  refine ⟨⟨⟨hs.query.owned.enter, hs.query.numbered, ?_, ?_, hs.query.entities⟩, ?_, ?_⟩,
    ⟨.refl _, hext, rfl⟩, List.Subset.refl _⟩
  · have hlen : q.clauses.length = q.scopes.size := hs.query.clauses_length
    simp [Query.enterSub, hlen]
  · intro s c hc
    rw [Query.enterSub] at hc
    dsimp only at hc
    by_cases hlt : s < q.clauses.length
    · rw [List.getElem?_append_left hlt] at hc
      exact hs.query.clauses_grow (fun _ => .refl _) hs.query.owned.enter (.refl _) hext hc
    · rw [List.getElem?_append_right (Nat.le_of_not_lt hlt)] at hc
      obtain rfl : c = .empty := List.mem_singleton.1 (List.mem_of_getElem? hc)
      exact Clauses.fits_empty _
  · exact .sub houter (hs.nested.grows (fun _ => .refl _) hs.query.owned hs.query.owned.enter
      (.refl _) hext q.scopes.current_lt)
  · intro sub hsub
    rw [Query.enterSub, Scopes.roots_enter]
    exact hs.issued sub hsub

theorem leaveSub {scope : Nat} (hs : Sound h ⟨q, .sub scope :: rest, is⟩) :
    Follows h ⟨q, .sub scope :: rest, is⟩ ⟨q.leaveSub scope, rest, is⟩ := by
  have hext := q.scopes.extends_leave scope
  obtain ⟨p, outer, suspended, hscope, hsus, houter, hn⟩ := hs.nested.of_sub
  have hp : p < q.scopes.size := Nat.lt_trans (Scopes.outer?_lt houter) q.scopes.current_lt
  refine ⟨⟨⟨hs.query.owned.leave scope, hs.query.numbered, ?_, ?_, hs.query.entities⟩, ?_, ?_⟩,
    ⟨.refl _, hext, rfl⟩, List.Subset.refl _⟩
  · rw [Query.leaveSub, Scopes.size_leave]
    exact hs.query.clauses_length
  · exact hs.query.clauses_grow (fun _ => .refl _) (hs.query.owned.leave scope) (.refl _) hext
  · have hcur : (q.scopes.leave scope).current = p := by
      rw [hscope]
      exact Scopes.current_leave houter
    have hsus : q.suspended = outer :: suspended := hsus
    rw [Query.leaveSub, Query.current]
    dsimp only
    rw [hcur, hsus]
    exact hn.grows (fun _ => .refl _) hs.query.owned (hs.query.owned.leave scope) (.refl _) hext hp
  · intro sub hsub
    rw [Query.leaveSub, Scopes.roots, Scopes.scope?_leave]
    exact hs.issued sub hsub

/-- The end of a sub-query hands it out only if it has a root. -/
theorem closeSub {scope : Nat} (hs : Sound h ⟨q, .sub scope :: rest, is⟩) (succeeded : Bool) :
    Follows h ⟨q, .sub scope :: rest, is⟩
      (closeSub ⟨q, .sub scope :: rest, is⟩ scope rest succeeded) := by
  have hleave := hs.leaveSub
  have hsound := hleave.sound
  have hext := hleave.kept.query
  rw [Stage.closeSub]
  dsimp only
  split
  · rcases Query.finishSub_cases scope (q.leaveSub scope) with ⟨e, pending, heq⟩ | ⟨heq, hroots⟩
    · rw [heq]
      exact ⟨hsound.change (.pending pending), ⟨hext.graph, hext.scopes, hext.schema⟩,
        List.Subset.refl _⟩
    · rw [heq]
      refine ⟨⟨hsound.query, hsound.nested, ?_⟩, hext, List.subset_cons_self _ _⟩
      intro sub hsub
      rcases List.mem_cons.1 hsub with rfl | hsub
      · exact hroots
      · exact hsound.issued sub hsub
  · exact hleave

/-- The subject of a comparison fits the scope in which its body runs. -/
theorem enterComparison {opening : Opening} (hs : Sound h ⟨q, fs, is⟩)
    (he : ∀ e ∈ opening.expressions, (h q.current).expression e) (guard : Guard) (op : Comparison) :
    Follows h ⟨q, fs, is⟩ (Stage.step ⟨q, fs, is⟩ (.enterComparison opening guard op)) := by
  have hlead := opening.leads he (q := q)
  have hfol := hs.follows_changes hlead.changes
  rw [Stage.step]
  dsimp only
  split
  · next subject q' heq =>
    rw [heq] at hfol
    have hcur := Query.current_of_changes hlead.changes
    have hfits := hlead.result subject (by rw [heq])
    rw [← hcur, heq] at hfits
    exact ⟨⟨hfol.sound.query, .comparison guard op hfits hfol.sound.nested, hfol.sound.issued⟩,
      ⟨hfol.kept.query, hfol.kept.issued⟩⟩
  · next q' heq =>
    rw [heq] at hfol
    exact hfol

theorem leaveComparison {subject : Subject} {guard : Guard} {op : Comparison}
    (hs : Sound h ⟨q, .comparison subject guard op :: rest, is⟩) (right : Option Placeholder) :
    Follows h ⟨q, .comparison subject guard op :: rest, is⟩
      (Stage.step ⟨q, .comparison subject guard op :: rest, is⟩ (.leaveComparison right)) := by
  obtain ⟨hfits, hn⟩ := hs.nested.of_comparison
  have hpop : Sound h ⟨q, rest, is⟩ := ⟨hs.query, hn, hs.issued⟩
  cases right with
  | none => exact ⟨hpop, .refl _, List.Subset.refl _⟩
  | some p =>
    have hfol := hpop.follows_changes (Query.compareProperty_leads hfits guard op p).changes
    exact ⟨hfol.sound, ⟨hfol.kept.query, hfol.kept.issued⟩⟩

/-- **What an event does.** An event that is given accepted handles keeps a stage sound and takes
nothing away. -/
theorem step (hs : s.Sound h) {e : Event} (he : e.Within (h s.query.current)) :
    Follows h s (s.step e) := by
  obtain ⟨q, fs, is⟩ := s
  have hstay : Follows h ⟨q, fs, is⟩ ⟨q, fs, is⟩ := ⟨hs, .refl _⟩
  cases e with
  | call c => exact hs.follows_changes (c.leads he).changes
  | enterGroup junction => exact hs.enterGroup junction
  | leaveGroup succeeded =>
    cases fs with
    | nil => exact hstay
    | cons f rest =>
      cases f with
      | group junction => exact hs.leaveGroup succeeded
      | sub scope => exact hstay
      | comparison subject guard op => exact hstay
  | enterSub => exact hs.enterSub
  | leaveSub succeeded =>
    cases fs with
    | nil => exact hstay
    | cons f rest =>
      cases f with
      | group junction => exact hstay
      | sub scope => exact hs.closeSub succeeded
      | comparison subject guard op => exact hstay
  | enterComparison opening guard op => exact hs.enterComparison he.1 guard op
  | leaveComparison right =>
    cases fs with
    | nil => exact hstay
    | cons f rest =>
      cases f with
      | group junction => exact hstay
      | sub scope => exact hstay
      | comparison subject guard op => exact hs.leaveComparison right

/-- What holds between a query and what a change makes of it, and of the opening and closing of
bodies, holds between the queries before and after an event. -/
theorem step_relates {R : Query → Query → Prop} (hs : s.Sound h) {e : Event}
    (he : e.Within (h s.query.current)) (refl : ∀ q, R q q)
    (trans : ∀ {q₁ q₂ q₃}, R q₁ q₂ → R q₂ q₃ → R q₁ q₃)
    (change : ∀ {q q'}, q.current = s.query.current → Query.Change (h q.current) q q' → R q q')
    (groups : ∀ gs, R s.query { s.query with groups := gs })
    (enter : e = .enterSub → R s.query s.query.enterSub)
    (leave : ∀ {succeeded outer p}, e = .leaveSub succeeded →
      s.frames.head? = some (.sub s.query.current) →
      s.query.scopes.outer? s.query.current = some outer →
      R s.query { s.query.leaveSub s.query.current with pending := p }) :
    R s.query (s.step e).query := by
  obtain ⟨q, fs, is⟩ := s
  have changes : ∀ {q₁ q₂ : Query}, q₁.current = q.current →
      ReflTransGen (Query.Change (h q.current)) q₁ q₂ → R q₁ q₂ := by
    intro q₁ q₂ hq hc
    induction hc with
    | refl => exact refl q₁
    | tail hbefore hc ih =>
      have hcur := (Query.current_of_changes hbefore).trans hq
      exact trans ih (change hcur (hcur ▸ hc))
  cases e with
  | call c => exact changes rfl (c.leads he).changes
  | enterGroup junction => exact groups _
  | leaveGroup succeeded =>
    cases fs with
    | nil => exact refl q
    | cons f rest =>
      cases f with
      | sub | comparison => exact refl q
      | group junction =>
        obtain ⟨members, gs, hg, fits, -⟩ := hs.nested.of_group
        exact trans (groups gs) (changes rfl (Query.changes_leaveGroup hg fits junction succeeded))
  | enterSub => exact enter rfl
  | leaveSub succeeded =>
    cases fs with
    | nil => exact refl q
    | cons f rest =>
      cases f with
      | group | comparison => exact refl q
      | sub scope =>
        obtain ⟨outer, _, _, hcur, -, houter, -⟩ := hs.nested.of_sub
        obtain rfl : scope = q.current := hcur
        obtain ⟨p, heq⟩ := query_closeSub ⟨q, .sub q.current :: rest, is⟩ q.current rest succeeded
        show R q (Stage.closeSub ⟨q, .sub q.current :: rest, is⟩ q.current rest succeeded).query
        rw [heq]
        exact leave rfl rfl houter
  | enterComparison opening guard op =>
    have hc := changes rfl (opening.leads he.1).changes
    rw [Stage.step]
    dsimp only
    split
    · next heq => rw [heq] at hc; exact hc
    · next heq => rw [heq] at hc; exact hc
  | leaveComparison right =>
    cases fs with
    | nil => exact refl q
    | cons f rest =>
      cases f with
      | group | sub => exact refl q
      | comparison subject guard op =>
        cases right with
        | none => exact refl q
        | some p =>
          have hfits := hs.nested.of_comparison.1
          exact changes rfl (Query.compareProperty_leads hfits guard op p).changes

end Sound

/-! ## Reachable stages -/

/-- Every stage that a run reaches is sound, if what is accepted in a scope stays accepted
there. -/
theorem ReachableBy.sound {accepted : Stage → Handles} (h : s.ReachableBy accepted)
    (held : Stage → Nat → Handles) (le : ∀ s, (accepted s).Le (held s s.query.current))
    (mono : ∀ {s s' : Stage}, s.Extends s' → ∀ scope, (held s scope).Le (held s' scope)) :
    s.Sound (held s) := by
  refine h.induction (motive := fun s => s.Sound (held s))
    (fun schema settings => sound_start _ schema settings) ?_
  intro s e he hs
  have hfol := hs.step (he.mono (le s))
  exact hfol.sound.mono (mono hfol.kept)

theorem Reachable.sound (h : s.Reachable) : s.Sound fun _ => .any :=
  ReachableBy.sound h (fun _ _ => .any) (fun _ => .refl _) fun _ _ => .refl _

/-- The handles of a query stay its own. -/
theorem own_le {s s' : Stage} (h : s.Extends s') : s.own.Le s'.own where
  expression he i hi := Nat.lt_of_lt_of_le (he i hi) h.query.graph.size_le
  sub hs := h.issued hs

theorem sound_of_own (h : s.ReachableBy own) : s.Sound fun _ => s.own :=
  h.sound (fun s _ => s.own) (fun _ => .refl _) fun hext _ => own_le hext

/-- A run takes nothing away. -/
theorem Sound.run (hs : s.Sound fun _ => .any) (es : List Event) :
    Follows (fun _ => .any) s (s.run es) := by
  induction es generalizing s with
  | nil => exact ⟨hs, .refl s⟩
  | cons e es ih =>
    have hfirst := hs.step e.within_any
    have hrest := ih hfirst.sound
    exact ⟨hrest.sound, hfirst.kept.trans hrest.kept⟩

end Stage

end PathQuery
