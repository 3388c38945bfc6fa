import PathQuery.Proofs.Leaf
import PathQuery.Query.Nesting

/-!
# Runs

What a program does with a query is a sequence of *events*: calls that hold no body, and the
beginnings and ends of bodies. A body belongs to a group, to a sub-query, or to a restriction that
compares with a property accessed by the body. Handles are data, and those of an event are
arbitrary, so a list of events stands for any program that came by its handles on the way, also
for one that got them from another query.

**Stages.** A `Stage` is a query with the bodies that are running, the innermost first. A body may
end in success or failure whatever its last call did, since a program may ignore an error or make
up one of its own. An end that does not fit the innermost body has no effect.

**Reachable.** A stage is `Reachable` if a run leads to it from a query with nothing in it, under
any registry and settings. `ReachableBy` restricts the handles that the events are given, for
instance to those of the query itself (`own`).
-/

namespace PathQuery

/-! ## Calls -/

/-- What a restriction is started on. -/
inductive Opening
  | filter (p : Placeholder)
  | onJoin (join property : Placeholder)
  | expression (e : Expression Nat)

namespace Opening

def subject : Opening → Build Subject
  | .filter p => Query.filter p
  | .onJoin join property => Query.onJoin join property
  | .expression e => pure (Query.filterExpression e)

/-- The expressions that the call is given. -/
def expressions : Opening → List (Expression Nat)
  | .expression e => [e]
  | _ => []

end Opening

/-- How a restriction is completed without a body. -/
inductive Completion
  | compareValue (op : Comparison) (v : Value)
  | compareParameter (op : Comparison) (name : String)
  | compareExpression (op : Comparison) (e : Expression Nat)
  | between (low high : Value)
  | oneOf (values : List Value) (negated : Bool)
  | inSub (scope : Nat) (negated : Bool)
  | isNull (negated : Bool)
  /-- Not at all: the restriction is dropped. -/
  | nothing

namespace Completion

def run (s : Subject) (guard : Guard) : Completion → Build Unit
  | .compareValue op v => Query.compare s guard op (.value v)
  | .compareParameter op name => Query.compare s guard op (.parameter name)
  | .compareExpression op e => Query.compare s guard op (.expression e)
  | .between low high => Query.between s guard low high
  | .oneOf values negated => Query.oneOf s guard values negated
  | .inSub scope negated => Query.inSub s guard scope negated
  | .isNull negated => Query.isNull s guard negated
  | .nothing => pure ()

/-- The test that a completion makes of the left side of a restriction. -/
def test? (left : Operand Nat) : Completion → Option Test
  | .compareValue op v => some (.compare left op (.value v))
  | .compareParameter op name => some (.compare left op (.parameter name))
  | .compareExpression op e => some (.compare left op (.expression e))
  | .between low high => some (.between left (.value low) (.value high))
  | .oneOf values negated => some (.oneOf left (values.map .value) negated)
  | .inSub scope negated => some (.inSub left scope negated)
  | .isNull negated => some (.isNull left negated)
  | .nothing => none

def expressions : Completion → List (Expression Nat)
  | .compareExpression _ e => [e]
  | _ => []

def subs : Completion → List Nat
  | .inSub scope _ => [scope]
  | _ => []

end Completion

/-- A call that holds no body. -/
inductive Call
  | addFrom (type : String)
  | access (owner : Placeholder) (property : String)
  | drain
  | operand (p : Placeholder)
  | join (p : Placeholder) (type : Join)
  | restrict (opening : Opening) (guard : Guard) (completion : Completion)
  | hasRows (scope : Nat) (negated : Bool)
  | select (p : Placeholder)
  | selectAggregate (func : Aggregate) (distinct : Bool) (p : Placeholder)
  | selectExpression (e : Expression Nat)
  | distinct
  | groupBy (p : Placeholder)
  | groupByExpression (e : Expression Nat)
  | orderBy (p : Placeholder) (direction : Direction)
  | orderByExpression (e : Expression Nat) (direction : Direction)
  | setParameter (name : String) (value : Value)

namespace Call

def run : Call → Build Unit
  | .addFrom type => do let _ ← Query.addFrom type; return ()
  | .access owner property => do let _ ← Query.access owner property; return ()
  | .drain => do let _ ← Query.drain; return ()
  | .operand p => do let _ ← Query.operand p; return ()
  | .join p type => do let _ ← Query.join p type; return ()
  | .restrict opening guard completion => do completion.run (← opening.subject) guard
  | .hasRows scope negated => Query.hasRows scope negated
  | .select p => Query.select p
  | .selectAggregate func unique p => Query.selectAggregate func unique p
  | .selectExpression e => Query.selectExpression e
  | .distinct => Query.distinct
  | .groupBy p => Query.groupBy p
  | .groupByExpression e => Query.groupByExpression e
  | .orderBy p direction => Query.orderBy p direction
  | .orderByExpression e direction => Query.orderByExpression e direction
  | .setParameter name value => Query.setParameter name value

def expressions : Call → List (Expression Nat)
  | .restrict opening _ completion => opening.expressions ++ completion.expressions
  | .selectExpression e | .groupByExpression e | .orderByExpression e _ => [e]
  | _ => []

def subs : Call → List Nat
  | .restrict _ _ completion => completion.subs
  | .hasRows scope _ => [scope]
  | _ => []

end Call

/-! ## Bodies -/

/-- A body that is running. -/
inductive Frame
  | group (junction : Junction)
  | sub (scope : Nat)
  /-- The body accesses the right side of a comparison with a subject. -/
  | comparison (subject : Subject) (guard : Guard) (op : Comparison)

inductive Event
  | call (c : Call)
  | enterGroup (junction : Junction)
  | leaveGroup (succeeded : Bool)
  | enterSub
  | leaveSub (succeeded : Bool)
  | enterComparison (opening : Opening) (guard : Guard) (op : Comparison)
  /-- The body of a comparison ends, with the property to compare with if it succeeded. -/
  | leaveComparison (right : Option Placeholder)

namespace Event

def expressions : Event → List (Expression Nat)
  | .call c => c.expressions
  | .enterComparison opening _ _ => opening.expressions
  | _ => []

def subs : Event → List Nat
  | .call c => c.subs
  | _ => []

end Event

/-! ## Handles -/

/-- Which expressions and sub-queries a query may be given. Placeholders are not restricted, since
every operation checks those it is given. -/
structure Handles where
  expression : Expression Nat → Prop
  sub : Nat → Prop

/-- No restriction. -/
def Handles.any : Handles := ⟨fun _ => True, fun _ => True⟩

/-- Whether an event is given such handles only. -/
def Event.Within (h : Handles) (e : Event) : Prop :=
  (∀ x ∈ e.expressions, h.expression x) ∧ ∀ scope ∈ e.subs, h.sub scope

theorem Event.within_any (e : Event) : e.Within .any := ⟨fun _ _ => trivial, fun _ _ => trivial⟩

/-! ## Stages -/

/-- A query under construction at one moment of a run. -/
structure Stage where
  query : Query
  /-- The bodies that are running, the innermost first. -/
  frames : List Frame
  /-- The sub-queries handed out so far. -/
  issued : List Nat

namespace Stage

/-- A query with nothing in it, and no body running. -/
def start (schema : Registry) (settings : Settings) : Stage := ⟨.start schema settings, [], []⟩

/-- The stage after the end of the body of a sub-query. -/
def closeSub (s : Stage) (scope : Nat) (rest : List Frame) (succeeded : Bool) : Stage :=
  let q := s.query.leaveSub scope
  if succeeded then
    match Query.finishSub scope q with
    | (.ok sub, q) => ⟨q, rest, sub :: s.issued⟩
    | (.error _, q) => ⟨q, rest, s.issued⟩
  else ⟨q, rest, s.issued⟩

/-- The stage after an event. -/
def step (s : Stage) : Event → Stage
  | .call c => { s with query := (c.run s.query).2 }
  | .enterGroup junction =>
    { s with query := s.query.enterGroup, frames := .group junction :: s.frames }
  | .leaveGroup succeeded =>
    match s.frames with
    | .group junction :: rest =>
      { s with query := s.query.leaveGroup junction succeeded, frames := rest }
    | _ => s
  | .enterSub =>
    { s with query := s.query.enterSub, frames := .sub s.query.scopes.size :: s.frames }
  | .leaveSub succeeded =>
    match s.frames with
    | .sub scope :: rest => s.closeSub scope rest succeeded
    | _ => s
  | .enterComparison opening guard op =>
    match opening.subject s.query with
    | (.ok subject, q) => { s with query := q, frames := .comparison subject guard op :: s.frames }
    | (.error _, q) => { s with query := q }
  | .leaveComparison right =>
    match s.frames, right with
    | .comparison subject guard op :: rest, some p =>
      { s with query := (Query.compareProperty subject guard op p s.query).2, frames := rest }
    | .comparison _ _ _ :: rest, none => { s with frames := rest }
    | _, _ => s

/-- The stage after a list of events. -/
def run (s : Stage) (es : List Event) : Stage := es.foldl step s

@[simp] theorem run_nil (s : Stage) : s.run [] = s := rfl

@[simp] theorem run_cons (s : Stage) (e : Event) (es : List Event) :
    s.run (e :: es) = (s.step e).run es := rfl

theorem run_append (s : Stage) (es fs : List Event) : s.run (es ++ fs) = (s.run es).run fs :=
  List.foldl_append

/-! ## Reachable stages -/

/-- Whether every event of a run is given handles that the query accepts at that moment. -/
def Given (accepted : Stage → Handles) : Stage → List Event → Prop
  | _, [] => True
  | s, e :: es => e.Within (accepted s) ∧ Given accepted (s.step e) es

/-- Whether a run in which every event is given accepted handles leads to a stage from a query
with nothing in it, under some registry and settings. -/
def ReachableBy (accepted : Stage → Handles) (s : Stage) : Prop :=
  ∃ schema settings es, (start schema settings).Given accepted es ∧
    (start schema settings).run es = s

/-- Whether any run at all leads to a stage. -/
def Reachable (s : Stage) : Prop := s.ReachableBy fun _ => .any

/-- The handles of a query itself: expressions over its nodes, and the sub-queries that it has
handed out. -/
def own (s : Stage) : Handles where
  expression e := ∀ i, .node i ∈ e.leaves → i < s.query.graph.size
  sub scope := scope ∈ s.issued

variable {accepted : Stage → Handles} {s : Stage}

theorem given_append {es fs : List Event} :
    s.Given accepted (es ++ fs) ↔ s.Given accepted es ∧ (s.run es).Given accepted fs := by
  induction es generalizing s with
  | nil => simp [Given]
  | cons e es ih => simp [Given, ih, and_assoc]

theorem given_any (s : Stage) (es : List Event) : s.Given (fun _ => .any) es := by
  induction es generalizing s with
  | nil => trivial
  | cons e es ih => exact ⟨Event.within_any e, ih _⟩

theorem ReachableBy.run (h : s.ReachableBy accepted) {es : List Event}
    (hes : s.Given accepted es) : (s.run es).ReachableBy accepted := by
  obtain ⟨schema, settings, before, hb, rfl⟩ := h
  exact ⟨schema, settings, before ++ es, given_append.2 ⟨hb, hes⟩, run_append _ before es⟩

theorem Reachable.run (h : s.Reachable) (es : List Event) : (s.run es).Reachable :=
  ReachableBy.run h (given_any s es)

theorem reachable_start (schema : Registry) (settings : Settings) (es : List Event) :
    ((start schema settings).run es).Reachable :=
  ⟨schema, settings, es, given_any _ es, rfl⟩

/-- What holds at the start and is kept by every event holds of every reachable stage. -/
theorem ReachableBy.induction {motive : Stage → Prop} (h : s.ReachableBy accepted)
    (start : ∀ schema settings, motive (start schema settings))
    (step : ∀ s e, e.Within (accepted s) → motive s → motive (s.step e)) : motive s := by
  obtain ⟨schema, settings, es, hes, rfl⟩ := h
  have key : ∀ es (s : Stage), s.Given accepted es → motive s → motive (s.run es) := by
    intro es
    induction es with
    | nil => exact fun _ _ hs => hs
    | cons e es ih => exact fun s hes hs => ih (s.step e) hes.2 (step s e hes.1 hs)
  exact key es _ hes (start schema settings)

end Stage

end PathQuery
