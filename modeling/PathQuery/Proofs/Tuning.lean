import PathQuery.Proofs.Run

/-!
# What building does not read

Nothing that builds a query reads its bindings or its settings: both count only when it is compiled.
So an operation does the same whatever they are (`Build.Blind`), and a program goes step by step
through the same queries, up to the bindings and the settings.

Only setting a parameter changes the bindings, and it looks at none.

Main statement: `step_retune`.
-/

namespace PathQuery

/-- The query with its bindings and its settings changed. -/
def Query.retune (q : Query) (b : Bindings → Bindings) (c : Settings → Settings) : Query :=
  { q with bindings := b q.bindings, settings := c q.settings }

namespace Query

variable (q : Query) (b : Bindings → Bindings) (c : Settings → Settings)

@[simp] theorem retune_schema : (q.retune b c).schema = q.schema := rfl

@[simp] theorem retune_graph : (q.retune b c).graph = q.graph := rfl

@[simp] theorem retune_scopes : (q.retune b c).scopes = q.scopes := rfl

@[simp] theorem retune_current : (q.retune b c).current = q.current := rfl

@[simp] theorem retune_pending : (q.retune b c).pending = q.pending := rfl

@[simp] theorem retune_groups : (q.retune b c).groups = q.groups := rfl

end Query

/-! ## Operations -/

/-- Whether an operation does the same whatever the bindings and the settings are. -/
def Build.Blind {α : Type} (x : Build α) : Prop :=
  ∀ q b c, x (Query.retune q b c) = ((x q).1, (x q).2.retune b c)

namespace Build

variable {α β : Type}

theorem blind_pure (a : α) : Blind (pure a : Build α) := fun _ _ _ => rfl

theorem blind_ask {f : Query → Except Error α} (hf : ∀ q b c, f (q.retune b c) = f q) :
    Blind (ask f) := fun q b c => Prod.ext (hf q b c) rfl

theorem blind_change {f : Query → Query} (hf : ∀ q b c, f (q.retune b c) = (f q).retune b c) :
    Blind (change f) := fun q b c => Prod.ext rfl (hf q b c)

theorem Blind.bind {x : Build α} {f : α → Build β} (hx : Blind x) (hf : ∀ a, Blind (f a)) :
    Blind (x >>= f) := by
  intro q b c
  have hxq := hx q b c
  cases hr : x q with
  | mk r q' =>
    rw [hr] at hxq
    cases r with
    | ok a => rw [bind_of_ok hxq, bind_of_ok hr, hf a q' b c]
    | error e => rw [bind_of_error hxq, bind_of_error hr]

end Build

namespace Query

open Build

theorem blind_addFrom (type : String) : Blind (addFrom type) := by
  intro q b c
  unfold addFrom
  rw [retune_schema]
  split <;> rfl

theorem blind_child (owner : Nat) (property : String) : Blind (child owner property) := by
  intro q b c
  unfold child
  rw [retune_graph, retune_scopes, retune_current, retune_schema]
  split
  · rfl
  · split <;> rfl

theorem blind_access (owner : Placeholder) (property : String) :
    Blind (access owner property) := by
  refine (blind_ask fun _ _ _ => rfl).bind fun node => ?_
  refine (blind_ask fun _ _ _ => rfl).bind fun _ => ?_
  refine (blind_child node property).bind fun c => ?_
  exact (blind_change fun _ _ _ => rfl).bind fun _ => blind_ask fun _ _ _ => rfl

theorem blind_drain : Blind drain := fun _ _ _ => rfl

theorem blind_consume (operation : String) (p : Placeholder) (node : Nat) :
    Blind (consume operation p node) := by
  unfold consume
  split
  · exact blind_pure ()
  · have htake : Blind (takePending operation) := fun _ _ _ => rfl
    refine htake.bind fun pending => ?_
    split
    · exact blind_pure ()
    · exact blind_ask fun _ _ _ => rfl

theorem blind_capture (operation : String) (p : Placeholder) : Blind (capture operation p) := by
  refine (blind_ask fun _ _ _ => rfl).bind fun node => ?_
  refine (blind_consume operation p node).bind fun _ => ?_
  exact (blind_ask fun _ _ _ => rfl).bind fun _ => blind_pure node

theorem blind_join (p : Placeholder) (type : Join) : Blind (join p type) := by
  refine (blind_capture "join" p).bind fun node => ?_
  refine Blind.bind ?_ fun _ => blind_pure p
  intro q b c
  unfold joinNode
  rw [retune_graph, retune_current]
  split
  · split <;> rfl
  · rfl

/-! ## Restrictions -/

theorem addFilter_retune (q : Query) (b : Bindings → Bindings) (c : Settings → Settings)
    (x : Condition) : (q.retune b c).addFilter x = (q.addFilter x).retune b c := by
  unfold addFilter
  rw [retune_groups]
  split <;> rfl

theorem blind_addTest (place : Place) (guard : Guard) (t : Test) :
    Blind (addTest place guard t) := by
  refine blind_change fun q b c => ?_
  cases place with
  | filter => exact addFilter_retune q b c _
  | join node => rfl

theorem leaveGroup_retune (q : Query) (b : Bindings → Bindings) (c : Settings → Settings)
    (junction : Junction) (succeeded : Bool) :
    (q.retune b c).leaveGroup junction succeeded =
      (q.leaveGroup junction succeeded).retune b c := by
  unfold leaveGroup
  rw [retune_groups]
  split
  · rfl
  · next members rest hgroups =>
    dsimp only
    split
    · exact addFilter_retune { q with groups := rest } b c _
    · rfl

theorem blind_captured {operation : String} {p : Placeholder} (f : Nat → Clauses → Clauses) :
    Blind (do
      let node ← capture operation p
      .change (·.modifyClauses (f node))) :=
  (blind_capture operation p).bind fun _ => blind_change fun _ _ _ => rfl

theorem blind_compareProperty (s : Subject) (guard : Guard) (op : Comparison)
    (p : Placeholder) : Blind (compareProperty s guard op p) := by
  refine Blind.bind ?_ fun right => blind_addTest s.place guard _
  refine (blind_capture "comparison" p).bind fun right => ?_
  cases s.place with
  | filter => exact blind_pure right
  | join node => exact (blind_ask fun _ _ _ => rfl).bind fun _ => blind_pure right

theorem blind_finishSub (scope : Nat) : Blind (finishSub scope) := by
  intro q b c
  unfold finishSub
  rw [retune_pending, retune_scopes]
  split
  · rfl
  · split <;> rfl

end Query

open Build Query

theorem Opening.blind_subject (o : Opening) : Blind o.subject := by
  cases o with
  | filter p => exact (blind_capture "where" p).bind fun node => blind_pure _
  | onJoin join property =>
    refine (blind_ask fun _ _ _ => rfl).bind fun node => ?_
    refine (blind_ask fun _ _ _ => rfl).bind fun _ => ?_
    refine (blind_capture "with" property).bind fun left => ?_
    exact (blind_ask fun _ _ _ => rfl).bind fun _ => blind_pure _
  | expression e => exact blind_pure _

theorem Completion.blind_run (s : Subject) (guard : Guard) (c : Completion) :
    Blind (c.run s guard) := by
  cases c with
  | inSub scope negated =>
    exact (blind_ask fun _ _ _ => rfl).bind fun _ => blind_addTest s.place guard _
  | nothing => exact blind_pure ()
  | compareValue | compareParameter | compareExpression | between | oneOf | isNull =>
    exact blind_addTest s.place guard _

/-- The binding that a call makes. -/
def Call.setting? : Call → Option (String × Value)
  | .setParameter name value => some (name, value)
  | _ => none

theorem Call.blind_run (c : Call) (hc : c.setting? = none) : Blind c.run := by
  cases c with
  | addFrom type => exact (blind_addFrom type).bind fun _ => blind_pure ()
  | access owner property => exact (blind_access owner property).bind fun _ => blind_pure ()
  | drain => exact blind_drain.bind fun _ => blind_pure ()
  | operand p => exact (blind_capture "expression" p).bind fun _ => blind_pure ()
  | join p type => exact (blind_join p type).bind fun _ => blind_pure ()
  | restrict opening guard completion =>
    exact opening.blind_subject.bind fun s => completion.blind_run s guard
  | hasRows scope negated =>
    exact (blind_ask fun _ _ _ => rfl).bind fun _ => blind_addTest .filter .always _
  | select p => exact blind_captured fun node => (·.addProjection (.node node))
  | selectAggregate func unique p =>
    exact blind_captured fun node => (·.addProjection (.aggregate func unique node))
  | groupBy p => exact blind_captured fun node => (·.addGroup (.node node))
  | orderBy p direction => exact blind_captured fun node => (·.addOrder ⟨.node node, direction⟩)
  | selectExpression | distinct | groupByExpression | orderByExpression =>
    exact blind_change fun _ _ _ => rfl
  | setParameter name value => cases hc

/-! ## Events -/

/-- The binding that an event makes. -/
def Event.setting? : Event → Option (String × Value)
  | .call c => c.setting?
  | _ => none

/-- Only setting a parameter makes a binding. -/
theorem Event.eq_of_setting? {e : Event} {name : String} {value : Value}
    (he : e.setting? = some (name, value)) : e = .call (.setParameter name value) := by
  cases e with
  | call c => cases c <;> cases he; rfl
  | _ => cases he

namespace Stage

/-- The stage with the bindings and the settings of its query changed. -/
def retune (s : Stage) (b : Bindings → Bindings) (c : Settings → Settings) : Stage :=
  { s with query := s.query.retune b c }

variable (b : Bindings → Bindings) (c : Settings → Settings)

@[simp] theorem retune_frames (s : Stage) : (s.retune b c).frames = s.frames := rfl

theorem closeSub_retune (s : Stage) (scope : Nat) (rest : List Frame) (succeeded : Bool) :
    (s.retune b c).closeSub scope rest succeeded =
      (s.closeSub scope rest succeeded).retune b c := by
  unfold closeSub
  cases succeeded with
  | false => rfl
  | true =>
    have hleave : (s.retune b c).query.leaveSub scope = (s.query.leaveSub scope).retune b c := rfl
    simp only [hleave, blind_finishSub scope _ b c, if_true]
    cases finishSub scope (s.query.leaveSub scope) with
    | mk r q => cases r <;> rfl

/-- **An event that makes no binding does the same** whatever the bindings and the settings are. -/
theorem step_retune (s : Stage) {e : Event} (he : e.setting? = none) :
    (s.retune b c).step e = (s.step e).retune b c := by
  cases e with
  | call call =>
    have hc := call.blind_run he s.query b c
    simp only [step, retune, hc]
  | enterGroup junction => rfl
  | leaveGroup succeeded =>
    simp only [step, retune_frames]
    split
    · next junction rest hframes =>
      have hleave := leaveGroup_retune s.query b c junction succeeded
      simp only [retune, hleave]
    · rfl
  | enterSub => rfl
  | leaveSub succeeded =>
    simp only [step, retune_frames]
    split
    · exact closeSub_retune b c s _ _ succeeded
    · rfl
  | enterComparison opening guard op =>
    have ho := opening.blind_subject s.query b c
    simp only [step, retune, ho]
    cases opening.subject s.query with
    | mk r q => cases r <;> rfl
  | leaveComparison right =>
    simp only [step, retune_frames]
    split
    · next subject guard op rest p hframes =>
      have hc := blind_compareProperty subject guard op p s.query b c
      simp only [retune, hc]
    · rfl
    · rfl

end Stage

end PathQuery
