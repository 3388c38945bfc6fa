import PathQuery.Script.Step

/-!
# Running scripts

A workspace is what a script works on: a query, the names bound so far, and the recorder that the
query is run against. A name that is not bound is an error of the script, found before the
operation that needs it starts.

Main definition: `Step.run`, by recursion over the step and the bodies inside it.
-/

namespace PathQuery.Script

/-- The names bound by a script. -/
structure Names where
  placeholders : List (String × Placeholder)
  operands : List (String × Nat)
  subs : List (String × Nat)

def Names.none : Names := ⟨[], [], []⟩

structure Workspace where
  query : Query
  names : Names
  recorder : Recorder

/-- What a step or a body leaves behind. -/
structure Ran (α : Type) where
  result : Except Error α
  nested : List Entry
  after : Workspace

namespace Workspace

/-! ## Names -/

/-- What a name is bound to, latest binding first. -/
def find {α : Type} (names : List (String × α)) (name : String) : Except Error α :=
  match names.lookup name with
  | some a => .ok a
  | none => .error (.session s!"no handle '{name}'")

def placeholder (w : Workspace) (name : String) : Except Error Placeholder :=
  find w.names.placeholders name

def subScope (w : Workspace) (name : String) : Except Error Nat := find w.names.subs name

/-- The node that an expression names. -/
def nodeNamed (w : Workspace) : NodeName → Except Error Nat
  | .operand name => find w.names.operands name
  | .placeholder name => (w.placeholder name).map (·.node)

/-- An expression with its nodes looked up. -/
def expression (w : Workspace) (e : Expression NodeName) : Except Error (Expression Nat) :=
  e.lookUp w.nodeNamed

def bindPlaceholder (w : Workspace) : Option String → Placeholder → Workspace
  | none, _ => w
  | some name, p =>
    { w with names := { w.names with placeholders := (name, p) :: w.names.placeholders } }

def bindOperand (w : Workspace) : Option String → Nat → Workspace
  | none, _ => w
  | some name, node =>
    { w with names := { w.names with operands := (name, node) :: w.names.operands } }

def bindSub (w : Workspace) : Option String → Nat → Workspace
  | none, _ => w
  | some name, scope => { w with names := { w.names with subs := (name, scope) :: w.names.subs } }

/-! ## Operations -/

/-- A step without a body, as its result and the workspace after it. -/
def ran {α : Type} (r : Except Error α × Workspace) : Ran α := ⟨r.1, [], r.2⟩

/-- An operation on the query. -/
def build {α : Type} (w : Workspace) (b : Build α) : Except Error α × Workspace :=
  let (result, q) := b w.query
  (result, { w with query := q })

/-- An operation on the query that needs something looked up first. -/
def buildWith {α β : Type} (w : Workspace) (a : Except Error α) (f : α → Build β) :
    Except Error β × Workspace :=
  match a with
  | .error e => (.error e, w)
  | .ok a => w.build (f a)

/-- An operation whose result is of no interest. -/
def quietly {α : Type} (r : Except Error α × Workspace) : Ran Outcome :=
  ran (r.1.map fun _ => .done, r.2)

def report (q : Query) (p : Placeholder) : PlaceholderReport :=
  ⟨p, q.graph.target p.node, q.graph.describe p.node, q.graph.reference p.node⟩

/-- An operation that gives a placeholder, bound to a name on success. -/
def withPlaceholder (bind : Option String) (r : Except Error Placeholder × Workspace) :
    Ran Outcome :=
  match r with
  | (.error e, w) => ran (.error e, w)
  | (.ok p, w) => ran (.ok (.placeholder (report w.query p)), w.bindPlaceholder bind p)

/-- The entry of a step. -/
def entry (r : Ran Outcome) : Entry :=
  .mk r.result r.after.query.pendingPaths r.after.query.graph.size r.after.query.current r.nested

/-- The query run a number of times, errors ignored. -/
def listTimes (w : Workspace) : Nat → Recorder → Recorder
  | 0, r => r
  | n + 1, r => w.listTimes n (Session.recording.list w.query.compile r).2

/-- Whether a run of the query breaks off, because it names a node that the query does not have. -/
def breaksOff (w : Workspace) : Bool :=
  match w.query.compile with
  | .error (.missingNode _) => true
  | _ => false

end Workspace

open Workspace

mutual

/-- Runs a step. -/
def Step.run : Step → Workspace → Ran Outcome
  | .source type bind, w => withPlaceholder bind (w.build (Query.addFrom type))
  | .access owner property bind, w =>
    withPlaceholder bind (w.buildWith (w.placeholder owner) (Query.access · property))
  | .drain, w =>
    let (_, drained) := w.build Query.drain
    ran (.ok (.paths w.query.pendingPaths), drained)
  | .operand of bind, w =>
    match w.buildWith (w.placeholder of) Query.operand with
    | (.error e, w) => ran (.error e, w)
    | (.ok node, w) => ran (.ok (.node node), w.bindOperand bind node)
  | .join of type bind, w =>
    withPlaceholder bind (w.buildWith (w.placeholder of) (Query.join · type))
  | .filter of guard criterion, w =>
    match w.buildWith (w.placeholder of) Query.filter with
    | (.error e, w) => ran (.error e, w)
    | (.ok subject, w) => criterion.run subject guard w
  | .onJoin join of guard criterion, w =>
    match w.placeholder join with
    | .error e => ran (.error e, w)
    | .ok join =>
      match w.buildWith (w.placeholder of) (Query.onJoin join) with
      | (.error e, w) => ran (.error e, w)
      | (.ok subject, w) => criterion.run subject guard w
  | .filterExpression e guard criterion, w =>
    match w.expression e with
    | .error e => ran (.error e, w)
    | .ok e => criterion.run (Query.filterExpression e) guard w
  | .hasRows sub negated, w =>
    quietly (w.buildWith (w.subScope sub) (Query.hasRows · negated))
  | .group junction body, w =>
    let inner := Step.runBody body { w with query := w.query.enterGroup }
    let q := inner.after.query.leaveGroup junction inner.result.isOk
    ⟨inner.result.map fun _ => .done, inner.nested, { inner.after with query := q }⟩
  | .sub body bind, w =>
    let scope := w.query.scopes.size
    let inner := Step.runBody body { w with query := w.query.enterSub }
    let w := { inner.after with query := inner.after.query.leaveSub scope }
    match inner.result with
    | .error e => ⟨.error e, inner.nested, w⟩
    | .ok _ =>
      match w.build (Query.finishSub scope) with
      | (.error e, w) => ⟨.error e, inner.nested, w⟩
      | (.ok scope, w) => ⟨.ok (.sub scope), inner.nested, w.bindSub bind scope⟩
  | .select of, w => quietly (w.buildWith (w.placeholder of) Query.select)
  | .selectAggregate func distinct of, w =>
    quietly (w.buildWith (w.placeholder of) (Query.selectAggregate func distinct))
  | .selectExpression e, w => quietly (w.buildWith (w.expression e) Query.selectExpression)
  | .distinct, w => quietly (w.build Query.distinct)
  | .groupBy of, w => quietly (w.buildWith (w.placeholder of) Query.groupBy)
  | .groupByExpression e, w => quietly (w.buildWith (w.expression e) Query.groupByExpression)
  | .orderBy of direction, w =>
    quietly (w.buildWith (w.placeholder of) (Query.orderBy · direction))
  | .orderByExpression e direction, w =>
    quietly (w.buildWith (w.expression e) (Query.orderByExpression · direction))
  | .setParameter name value, w => quietly (w.build (Query.setParameter name value))
  | .compile, w => ran (w.query.compile.map .compiled, w)
  | .diagnostic, w => ran (.ok (.text w.query.diagnostic), w)
  | .reports of, w =>
    ran (do
      let p ← w.placeholder of
      let nodes ← w.query.graph.subtree p.node
      return .reports (← nodes.mapM w.query.graph.report), w)
  | .list session, w =>
    let (result, r) := session.list w.query.compile w.recorder
    ran (result.map .rows, { w with recorder := r })
  | .unique session, w =>
    let (result, r) := session.unique w.query.compile w.recorder
    ran (result.map .row, { w with recorder := r })
  | .queueRows rows, w =>
    match rows.mapM fun (columns, values) => Row.of columns values with
    | .error e => ran (.error e, w)
    | .ok rows => ran (.ok .done, { w with recorder := w.recorder.push rows })
  | .recorder, w => ran (.ok (.recorder w.recorder), w)
  | .resetCount, w => ran (.ok .done, { w with recorder := w.recorder.resetCount })
  | .checkCount atMost expected runs, w =>
    let r := w.listTimes runs w.recorder.resetCount
    let counted := if atMost then r.count ≤ expected else r.count = expected
    let completed := runs = 0 || !w.breaksOff
    ran (.ok (.verdict (counted && completed)), { w with recorder := r })
  | .attempt step, w => step.run w

/-- Completes a restriction on a subject. -/
def Criterion.run (subject : Subject) (guard : Guard) : Criterion → Workspace → Ran Outcome
  | .compare op value, w =>
    quietly (w.build (Query.compare subject guard op (.value value)))
  | .compareParameter op name, w =>
    quietly (w.build (Query.compare subject guard op (.parameter name)))
  | .compareProperty op body property, w =>
    let inner := Step.runBody body w
    match inner.result with
    | .error e => ⟨.error e, inner.nested, inner.after⟩
    | .ok _ =>
      let r := inner.after.buildWith (inner.after.placeholder property)
        (Query.compareProperty subject guard op)
      ⟨r.1.map fun _ => .done, inner.nested, r.2⟩
  | .compareExpression op e, w =>
    quietly (w.buildWith (w.expression e) fun e =>
      Query.compare subject guard op (.expression e))
  | .between low high, w => quietly (w.build (Query.between subject guard low high))
  | .oneOf values negated, w => quietly (w.build (Query.oneOf subject guard values negated))
  | .inSub sub negated, w =>
    quietly (w.buildWith (w.subScope sub) (Query.inSub subject guard · negated))
  | .isNull negated, w => quietly (w.build (Query.isNull subject guard negated))
  | .nothing, w => ran (.ok .done, w)

/-- Runs a body up to the first step that fails and is no attempt. -/
def Step.runBody : List Step → Workspace → Ran Unit
  | [], w => ⟨.ok (), [], w⟩
  | step :: rest, w =>
    let r := step.run w
    match r.result, step.isAttempt with
    | .error e, false => ⟨.error e, [entry r], r.after⟩
    | _, _ =>
      let later := Step.runBody rest r.after
      ⟨later.result, entry r :: later.nested, later.after⟩

end

/-- Runs all steps of a script, those after a failed one too. -/
def runAll : List Step → Workspace → List Entry × Workspace
  | [], w => ([], w)
  | step :: rest, w =>
    let r := step.run w
    let (entries, w) := runAll rest r.after
    (entry r :: entries, w)

end PathQuery.Script
