import PathQuery.Proofs.Canonical
import PathQuery.Proofs.Quiet

/-!
# Failed calls

An operation asks its questions, takes the pending access it needs, and only then acts. So a call
that fails has added nothing: the graph, the scopes, the clauses, the groups and the bindings are
as before. It may have taken an access, and then none is pending any more.

Along a call this is a matter of order. An operation *drains* if all it may do is use up the pending
accesses, and it is *atomic* if it does no more than that when it fails. What drains, followed by
what is atomic, is atomic (`Atomic.bind`), and what cannot fail is atomic whatever it does.

Main statement: `failsCleanly`.
-/

namespace PathQuery

/-! ## Drained queries -/

namespace Query

/-- Whether a query is another one, with its pending accesses or with all of them used up. -/
def Drained (q q' : Query) : Prop := q' = q ∨ q' = { q with pending := .none }

namespace Drained

variable {q q' q'' : Query}

theorem refl (q : Query) : q.Drained q := Or.inl rfl

theorem all (q : Query) : q.Drained { q with pending := .none } := Or.inr rfl

theorem trans (h : q.Drained q') (h' : q'.Drained q'') : q.Drained q'' := by
  rcases h with rfl | rfl
  · exact h'
  · rcases h' with rfl | rfl
    · exact Or.inr rfl
    · exact Or.inr rfl

/-- With nothing pending there is nothing to use up. -/
theorem eq_of_none (h : q.Drained q') (hq : q.pending = .none) : q' = q := by
  obtain ⟨draft, settings, aliases, pending, groups, suspended⟩ := q
  obtain rfl : pending = .none := hq
  exact h.elim id id

end Drained

end Query

/-! ## Operations -/

namespace Build

variable {α β : Type}

/-- Whether an operation uses up pending accesses at most. -/
def Drains (x : Build α) : Prop := ∀ q : Query, q.Drained (x q).2

/-- Whether an operation uses up pending accesses at most when it fails. -/
def Atomic (x : Build α) : Prop :=
  ∀ (q : Query) (e : Error) (q' : Query), x q = (.error e, q') → q.Drained q'

theorem drains_pure (a : α) : Drains (pure a : Build α) := Query.Drained.refl

theorem drains_ask (f : Query → Except Error α) : Drains (ask f) := Query.Drained.refl

theorem Drains.atomic {x : Build α} (hx : Drains x) : Atomic x := by
  intro q e q' he
  have hq := hx q
  rwa [he] at hq

theorem atomic_change (f : Query → Query) : Atomic (change f) := by
  intro q e q' he
  cases he

theorem Atomic.bind {x : Build α} {f : α → Build β} (hx : Drains x) (hf : ∀ a, Atomic (f a)) :
    Atomic (x >>= f) := by
  intro q e q' he
  rcases bind_eq_error_iff.1 he with he | ⟨a, q₁, hok, he⟩
  · exact hx.atomic q e q' he
  · have hq := hx q
    rw [hok] at hq
    exact hq.trans (hf a q₁ e q' he)

theorem Drains.bind {x : Build α} {f : α → Build β} (hx : Drains x) (hf : ∀ a, Drains (f a)) :
    Drains (x >>= f) :=
  relates_bind Query.Drained.trans hx hf

/-- What only asks leaves the query to what went before. -/
theorem snd_bind {x : Build α} {f : α → Build β} (hf : ∀ a q, (f a q).2 = q) (q : Query) :
    ((x >>= f) q).2 = (x q).2 := by
  cases hr : x q with
  | mk r q₁ =>
    cases r with
    | ok a => rw [bind_of_ok hr, hf]
    | error e => rw [bind_of_error hr]

theorem Atomic.map {x : Build α} (hx : Atomic x) (f : α → β) :
    Atomic (x >>= fun a => pure (f a)) := by
  intro q e q' he
  rcases bind_eq_error_iff.1 he with he | ⟨a, q₁, -, he⟩
  · exact hx q e q' he
  · cases he

end Build

/-! ## Captures -/

namespace Query

open Build

/-- The query after the access to a node was taken. A root needs none, and nothing is taken for a
node that the query does not have. -/
def taking (q : Query) (p : Placeholder) : Query :=
  if p.kind = .root ∨ q.graph.kind? p.node ≠ some p.kind then q else { q with pending := .none }

theorem drained_taking (q : Query) (p : Placeholder) : q.Drained (q.taking p) := by
  unfold taking
  split
  · exact .refl q
  · exact .all q

theorem drains_drain : Drains drain := Drained.all

theorem consume_snd (operation : String) (p : Placeholder) (node : Nat) (q : Query) :
    (consume operation p node q).2 = if p.kind = .root then q else { q with pending := .none } := by
  unfold consume
  split
  · rfl
  · apply snd_bind
    intro pending q
    split <;> rfl

/-- What a capture takes is settled by the placeholder, whether the capture succeeds or not. -/
theorem capture_snd (operation : String) (p : Placeholder) (q : Query) :
    (capture operation p q).2 = q.taking p := by
  unfold capture taking
  by_cases hkind : q.graph.kind? p.node = some p.kind
  · have hcheck : ask (·.checkPlaceholder p) q = (.ok p.node, q) := by
      rw [ask, checkPlaceholder, if_pos hkind]
    rw [bind_of_ok hcheck, snd_bind (fun _ q => snd_bind (fun _ _ => rfl) q), consume_snd]
    simp only [ne_eq, hkind, not_true_eq_false, or_false]
  · have hcheck : ask (·.checkPlaceholder p) q = (.error .foreignHandle, q) := by
      rw [ask, checkPlaceholder, if_neg hkind]
    rw [bind_of_error hcheck, if_pos (Or.inr hkind)]

theorem drains_capture (operation : String) (p : Placeholder) : Drains (capture operation p) := by
  intro q
  rw [capture_snd]
  exact q.drained_taking p

/-- A capture, and then an addition to the clauses. -/
theorem atomic_captured {operation : String} {p : Placeholder} (f : Nat → Clauses → Clauses) :
    Atomic (do
      let node ← capture operation p
      .change (·.modifyClauses (f node))) :=
  Atomic.bind (drains_capture operation p) fun _ => atomic_change _

theorem atomic_join (p : Placeholder) (type : Join) : Atomic (join p type) := by
  apply Atomic.bind (drains_capture "join" p)
  intro node
  apply Atomic.map
  intro q e q' he
  rcases joinNode_cases node type q with ⟨e', hfail⟩ | hset
  · cases hfail.symm.trans he
    exact .refl q
  · cases hset.symm.trans he

theorem drains_captureRight (place : Place) (p : Placeholder) : Drains (captureRight place p) := by
  apply (drains_capture "comparison" p).bind
  intro right
  cases place with
  | filter => exact drains_pure right
  | join node => exact (drains_ask _).bind fun _ => drains_pure right

theorem atomic_compareProperty (s : Subject) (guard : Guard) (op : Comparison) (p : Placeholder) :
    Atomic (compareProperty s guard op p) :=
  Atomic.bind (drains_captureRight s.place p) fun _ => atomic_change _

theorem addFrom_eq_error {type : String} {q q' : Query} {e : Error}
    (he : addFrom type q = (.error e, q')) : q' = q := by
  unfold addFrom at he
  split at he
  · cases he
  · cases he
    rfl

/-- A question that is asked before a change that cannot fail: a failure changes nothing. -/
theorem eq_of_ask_error {α : Type} {ask' : Query → Except Error α} {f : α → Query → Query}
    {q q' : Query} {e : Error}
    (he : (Build.ask ask' >>= fun a => Build.change (f a)) q = (.error e, q')) : q' = q := by
  rcases bind_eq_error_iff.1 he with he | ⟨a, q₁, -, he⟩
  · exact (congrArg Prod.snd he).symm
  · cases he

end Query

open Build Query

theorem Opening.drains_subject (o : Opening) : Drains o.subject := by
  cases o with
  | filter p => exact (drains_capture "where" p).bind fun node => drains_pure _
  | onJoin join property =>
    exact (drains_ask _).bind fun node => (drains_ask _).bind fun _ =>
      (drains_capture "with" property).bind fun left => (drains_ask _).bind fun _ => drains_pure _
  | expression e => exact drains_pure _

/-- Only a sub-query can be refused when a restriction is completed, and nothing is taken then. -/
theorem Completion.eq_of_error {s : Subject} {guard : Guard} {c : Completion} {q q' : Query}
    {e : Error} (he : c.run s guard q = (.error e, q')) : q' = q := by
  cases c with
  | inSub scope negated => exact eq_of_ask_error he
  | compareValue | compareParameter | compareExpression | between | oneOf | isNull | nothing =>
    cases he

theorem Completion.atomic_run (s : Subject) (guard : Guard) (c : Completion) :
    Atomic (c.run s guard) :=
  fun _ _ _ he => Or.inl (Completion.eq_of_error he)

theorem Call.atomic_run (c : Call) : Atomic c.run := by
  cases c with
  | addFrom type => exact Atomic.map (fun _ _ _ he => Or.inl (addFrom_eq_error he)) _
  | access owner property => exact Atomic.map (fun _ _ _ he => Or.inl (access_eq_error he)) _
  | drain => exact Atomic.map drains_drain.atomic _
  | operand p => exact (drains_capture "expression" p).atomic.map _
  | join p type => exact (atomic_join p type).map _
  | restrict opening guard completion =>
    exact Atomic.bind opening.drains_subject fun s => completion.atomic_run s guard
  | hasRows scope negated => exact fun _ _ _ he => Or.inl (eq_of_ask_error he)
  | select p => exact atomic_captured fun node => (·.addProjection (.node node))
  | selectAggregate func unique p =>
    exact atomic_captured fun node => (·.addProjection (.aggregate func unique node))
  | groupBy p => exact atomic_captured fun node => (·.addGroup (.node node))
  | orderBy p direction => exact atomic_captured fun node => (·.addOrder ⟨.node node, direction⟩)
  | selectExpression | distinct | groupByExpression | orderByExpression | setParameter =>
    exact atomic_change _

/-! ## Failures -/

namespace Query

/-- Whether whatever fails leaves a query as it is, the pending accesses apart. -/
structure FailsCleanly (q : Query) : Prop where
  /-- A call that fails. -/
  call : ∀ c e q', Call.run c q = (.error e, q') → q.Drained q'
  /-- A restriction that cannot be started. -/
  opening : ∀ o e q', Opening.subject o q = (.error e, q') → q.Drained q'
  /-- A property that a restriction cannot be compared with. -/
  comparison : ∀ s guard op p e q', compareProperty s guard op p q = (.error e, q') → q.Drained q'
  /-- A restriction that cannot be completed: a sub-query is refused before anything is taken. -/
  completion : ∀ s guard c e q', Completion.run s guard c q = (.error e, q') → q' = q
  /-- A root that cannot be added. -/
  root : ∀ type e q', addFrom type q = (.error e, q') → q' = q
  /-- A property that cannot be accessed. -/
  access : ∀ owner property e q', access owner property q = (.error e, q') → q' = q
  /-- A node that cannot be captured: the pending accesses are used up if the query has the node and
  it is no root. -/
  capture : ∀ operation p e q', capture operation p q = (.error e, q') → q' = q.taking p
  /-- With nothing pending a call that fails leaves no trace. -/
  traceless : ∀ c e q', q.pending = .none → Call.run c q = (.error e, q') → q' = q

/-- **Failed calls change nothing but the pending accesses**, and those they keep or use up. -/
theorem failsCleanly (q : Query) : q.FailsCleanly where
  call c := c.atomic_run q
  opening o := o.drains_subject.atomic q
  comparison s guard op p := atomic_compareProperty s guard op p q
  completion _ _ _ _ _ he := Completion.eq_of_error he
  root _ _ _ he := addFrom_eq_error he
  access _ _ _ _ he := access_eq_error he
  capture operation p _ _ he := by
    rw [← capture_snd operation p q, he]
  traceless c e q' hq he := (c.atomic_run q e q' he).eq_of_none hq

/-- A plain value cannot be joined. This is noticed after its access was taken. -/
example :
    let s := (Stage.start Sample.registry .default).run
      [.call (.addFrom "Person"), .call (.access ⟨0, .root⟩ "name")]
    let after := join ⟨1, .property⟩ .left s.query
    after.1.isOk = false ∧ s.query.pending = ⟨[1]⟩ ∧ after.2.pending = .none := by
  decide +kernel

end Query

end PathQuery
