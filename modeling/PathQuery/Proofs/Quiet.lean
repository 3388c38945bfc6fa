import PathQuery.Proofs.Change

/-!
# Events that leave the graph alone

Only three calls reach into the graph: adding a root, accessing a property and setting a join type.
Everything else works on what is there. It may use up pending accesses, but leaves none behind that
was not pending before (`Query.Keeps`).

Main statement: `keeps_step`.
-/

namespace PathQuery

/-- Whether a query keeps the graph of another one and has no pending accesses but those. -/
structure Query.Keeps (q q' : Query) : Prop where
  graph : q'.graph = q.graph
  pending : q'.pending.nodes ⊆ q.pending.nodes

namespace Query.Keeps

variable {q q' q'' : Query}

theorem refl (q : Query) : q.Keeps q := ⟨rfl, List.Subset.refl _⟩

theorem trans (h : q.Keeps q') (h' : q'.Keeps q'') : q.Keeps q'' :=
  ⟨h'.graph.trans h.graph, List.Subset.trans h'.pending h.pending⟩

theorem of_eq (hgraph : q'.graph = q.graph) (hpending : q'.pending = q.pending) : q.Keeps q' :=
  ⟨hgraph, hpending ▸ List.Subset.refl _⟩

end Query.Keeps

/-! ## Operations -/

/-- Whether an operation keeps the graph and makes no access, also when it fails. -/
def Build.Quiet {α : Type} (x : Build α) : Prop := ∀ q, Query.Keeps q (x q).2

namespace Build

variable {α β : Type}

theorem quiet_pure (a : α) : Quiet (pure a : Build α) := Query.Keeps.refl

theorem quiet_ask (f : Query → Except Error α) : Quiet (ask f) := Query.Keeps.refl

theorem Quiet.bind {x : Build α} {f : α → Build β} (hx : Quiet x) (hf : ∀ a, Quiet (f a)) :
    Quiet (x >>= f) :=
  relates_bind Query.Keeps.trans hx hf

/-- What an operation changes does not depend on whether its result is used. -/
theorem snd_ignore (x : Build α) (q : Query) : (do let _ ← x; return () : Build Unit) q =
    ((x q).1.map fun _ => (), (x q).2) := by
  cases hr : x q with
  | mk r q' =>
    cases r with
    | ok a => exact bind_of_ok hr
    | error e => exact bind_of_error hr

end Build

namespace Query

open Build

theorem quiet_drain : Quiet drain := fun _ => ⟨rfl, List.nil_subset _⟩

theorem quiet_consume (operation : String) (p : Placeholder) (node : Nat) :
    Quiet (consume operation p node) := by
  unfold consume
  split
  · exact quiet_pure ()
  · have htake : Quiet (takePending operation) := fun _ => ⟨rfl, List.nil_subset _⟩
    refine htake.bind fun pending => ?_
    split
    · exact quiet_pure ()
    · exact quiet_ask _

theorem quiet_capture (operation : String) (p : Placeholder) : Quiet (capture operation p) :=
  (quiet_ask _).bind fun node => (quiet_consume operation p node).bind fun _ =>
    (quiet_ask _).bind fun _ => quiet_pure node

/-- A condition is added to the clauses or to a group, and nothing else changes. -/
theorem exists_addFilter_eq (q : Query) (c : Condition) : ∃ clauses groups,
    q.addFilter c = { q with clauses := clauses, groups := groups } := by
  unfold addFilter
  split
  · exact ⟨_, q.groups, rfl⟩
  · exact ⟨q.clauses, _, rfl⟩

/-- The same holds when a group is closed. -/
theorem exists_leaveGroup_eq (q : Query) (junction : Junction) (succeeded : Bool) :
    ∃ clauses groups,
      q.leaveGroup junction succeeded = { q with clauses := clauses, groups := groups } := by
  unfold leaveGroup
  split
  · exact ⟨q.clauses, q.groups, rfl⟩
  · next members rest hgroups =>
    dsimp only
    split
    · obtain ⟨clauses, groups, heq⟩ :=
        exists_addFilter_eq { q with groups := rest } (.group junction members)
      exact ⟨clauses, groups, heq⟩
    · exact ⟨q.clauses, rest, rfl⟩

theorem keeps_addFilter (q : Query) (c : Condition) : q.Keeps (q.addFilter c) := by
  obtain ⟨clauses, groups, heq⟩ := exists_addFilter_eq q c
  rw [heq]
  exact .of_eq rfl rfl

theorem keeps_leaveGroup (q : Query) (junction : Junction) (succeeded : Bool) :
    q.Keeps (q.leaveGroup junction succeeded) := by
  obtain ⟨clauses, groups, heq⟩ := exists_leaveGroup_eq q junction succeeded
  rw [heq]
  exact .of_eq rfl rfl

theorem quiet_addTest (place : Place) (guard : Guard) (t : Test) :
    Quiet (addTest place guard t) := by
  intro q
  cases place with
  | filter => exact keeps_addFilter q _
  | join node => exact .of_eq rfl rfl

theorem quiet_captured {operation : String} {p : Placeholder} (f : Nat → Clauses → Clauses) :
    Quiet (do
      let node ← capture operation p
      .change (·.modifyClauses (f node))) :=
  (quiet_capture operation p).bind fun _ _ => .of_eq rfl rfl

theorem quiet_compareProperty (s : Subject) (guard : Guard) (op : Comparison) (p : Placeholder) :
    Quiet (compareProperty s guard op p) := by
  refine Quiet.bind ?_ fun right => quiet_addTest s.place guard _
  refine (quiet_capture "comparison" p).bind fun right => ?_
  cases s.place with
  | filter => exact quiet_pure right
  | join node => exact (quiet_ask _).bind fun _ => quiet_pure right

end Query

open Build Query

theorem Opening.quiet_subject (o : Opening) : Quiet o.subject := by
  cases o with
  | filter p => exact (quiet_capture "where" p).bind fun node => quiet_pure _
  | onJoin join property =>
    exact (quiet_ask _).bind fun node => (quiet_ask _).bind fun _ =>
      (quiet_capture "with" property).bind fun left => (quiet_ask _).bind fun _ => quiet_pure _
  | expression e => exact quiet_pure _

theorem Completion.quiet_run (s : Subject) (guard : Guard) (c : Completion) :
    Quiet (c.run s guard) := by
  cases c with
  | inSub scope negated => exact (quiet_ask _).bind fun _ => quiet_addTest s.place guard _
  | nothing => exact quiet_pure ()
  | compareValue | compareParameter | compareExpression | between | oneOf | isNull =>
    exact quiet_addTest s.place guard _

/-- Whether a call cannot reach into the graph. -/
def Call.isQuiet : Call → Bool
  | .addFrom _ | .access _ _ | .join _ _ => false
  | _ => true

theorem Call.quiet_run (c : Call) (hc : c.isQuiet = true) : Quiet c.run := by
  cases c with
  | addFrom | access | join => cases hc
  | drain => exact quiet_drain.bind fun _ => quiet_pure ()
  | operand p => exact (quiet_capture "expression" p).bind fun _ => quiet_pure ()
  | restrict opening guard completion =>
    exact opening.quiet_subject.bind fun s => completion.quiet_run s guard
  | hasRows scope negated => exact (quiet_ask _).bind fun _ => quiet_addTest .filter .always _
  | select p => exact quiet_captured fun node => (·.addProjection (.node node))
  | selectAggregate func unique p =>
    exact quiet_captured fun node => (·.addProjection (.aggregate func unique node))
  | groupBy p => exact quiet_captured fun node => (·.addGroup (.node node))
  | orderBy p direction => exact quiet_captured fun node => (·.addOrder ⟨.node node, direction⟩)
  | selectExpression | distinct | groupByExpression | orderByExpression | setParameter =>
    exact fun q => .of_eq rfl rfl

/-! ## Setting a join type -/

theorem Query.joinNode_cases (node : Nat) (type : Join) (q : Query) :
    (∃ e, joinNode node type q = (.error e, q)) ∨
      joinNode node type q = (.ok (), { q with graph := q.graph.setJoin node type }) := by
  unfold joinNode
  split
  · split
    · next g hg =>
      unfold Graph.join at hg
      split at hg <;> cases hg
      exact Or.inr rfl
    · next e he => exact Or.inl ⟨e, rfl⟩
  · exact Or.inl ⟨_, rfl⟩

/-- Setting a join type fails, and then the graph stays as it is, or it sets the type of the node of
the placeholder, and nothing else. -/
theorem Query.join_cases (p : Placeholder) (type : Join) (q : Query) :
    ((∃ e, (Query.join p type q).1 = .error e) ∧ q.Keeps (Query.join p type q).2) ∨
      ((Query.join p type q).1 = .ok p ∧ p.node < q.graph.size ∧
        (Query.join p type q).2.graph = q.graph.setJoin p.node type ∧
        (Query.join p type q).2.pending.nodes ⊆ q.pending.nodes) := by
  have hcapture := quiet_capture "join" p q
  have hleads := (capture_leads (h := .any) (q := q) "join" p).result
  cases hr : capture "join" p q with
  | mk r q₁ =>
    rw [hr] at hcapture hleads
    cases r with
    | error e =>
      rw [show Query.join p type q = (.error e, q₁) from bind_of_error hr]
      exact Or.inl ⟨⟨e, rfl⟩, hcapture⟩
    | ok node =>
      obtain ⟨-, rfl, hseen⟩ := hleads node rfl
      have hlt : p.node < q.graph.size := hcapture.graph ▸ hseen.lt_size
      rw [show Query.join p type q =
        (do joinNode p.node type; return p : Build Placeholder) q₁ from bind_of_ok hr]
      rcases joinNode_cases p.node type q₁ with ⟨e, he⟩ | hset
      · rw [bind_of_error he]
        exact Or.inl ⟨⟨e, rfl⟩, hcapture⟩
      · rw [bind_of_ok hset]
        exact Or.inr ⟨rfl, hlt, congrArg (·.setJoin p.node type) hcapture.graph, hcapture.pending⟩

/-! ## Events -/

/-- Whether an event cannot reach into the graph. -/
def Event.isQuiet : Event → Bool
  | .call c => c.isQuiet
  | _ => true

namespace Stage

theorem query_step_addFrom (s : Stage) (type : String) :
    (s.step (.call (.addFrom type))).query = (Query.addFrom type s.query).2 :=
  congrArg Prod.snd (snd_ignore _ _)

theorem query_step_access (s : Stage) (owner : Placeholder) (property : String) :
    (s.step (.call (.access owner property))).query = (Query.access owner property s.query).2 :=
  congrArg Prod.snd (snd_ignore _ _)

theorem query_step_join (s : Stage) (p : Placeholder) (type : Join) :
    (s.step (.call (.join p type))).query = (Query.join p type s.query).2 :=
  congrArg Prod.snd (snd_ignore _ _)

theorem keeps_closeSub (s : Stage) (scope : Nat) (rest : List Frame) (succeeded : Bool) :
    s.query.Keeps (s.closeSub scope rest succeeded).query := by
  have hleave : s.query.Keeps (s.query.leaveSub scope) := .of_eq rfl rfl
  unfold closeSub
  cases succeeded with
  | false => exact hleave
  | true =>
    have hfinish : (s.query.leaveSub scope).Keeps (finishSub scope (s.query.leaveSub scope)).2 := by
      unfold finishSub
      split
      · exact ⟨rfl, List.nil_subset _⟩
      · split <;> exact .refl _
    rw [if_pos rfl]
    cases hr : finishSub scope (s.query.leaveSub scope) with
    | mk r q =>
      rw [hr] at hfinish
      cases r <;> exact hleave.trans hfinish

/-- **Events that leave the graph alone** make no access either. -/
theorem keeps_step (s : Stage) {e : Event} (he : e.isQuiet = true) :
    s.query.Keeps (s.step e).query := by
  cases e with
  | call c => exact c.quiet_run he s.query
  | enterGroup junction => exact .of_eq rfl rfl
  | leaveGroup succeeded =>
    rw [step]
    split
    · exact keeps_leaveGroup s.query _ succeeded
    · exact .refl _
  | enterSub => exact .of_eq rfl rfl
  | leaveSub succeeded =>
    rw [step]
    split
    · exact keeps_closeSub s _ _ succeeded
    · exact .refl _
  | enterComparison opening guard op =>
    have hsubject := opening.quiet_subject s.query
    rw [step]
    cases hr : opening.subject s.query with
    | mk r q =>
      rw [hr] at hsubject
      cases r <;> exact hsubject
  | leaveComparison right =>
    unfold step
    dsimp only
    split
    · exact quiet_compareProperty _ _ _ _ s.query
    · exact .refl _
    · exact .refl _

end Stage

end PathQuery
