import PathQuery.Graph.Report
import PathQuery.Query.Nesting
import PathQuery.Recorder

/-!
# Scripts

A script is a query written down as data: a list of steps that name what they make, so that later
steps can refer to it. Steps nest, since the body of a group, of a sub-query and of an access to
compare with is a list of steps.

**Failures.** At the outermost level the steps after a failed one still run. Inside a body a failed
step ends the body, which then fails too, unless the step is an attempt.
-/

namespace PathQuery.Script

/-- How an expression of a script names a node: by an operand, whose access was consumed, or by a
placeholder. -/
inductive NodeName
  | operand (name : String)
  | placeholder (name : String)
deriving DecidableEq, Repr

mutual

/-- One step of a script. A name given as `bind` is bound to the result. -/
inductive Step
  | source (type : String) (bind : Option String)
  | access (owner property : String) (bind : Option String)
  | drain
  | operand (of : String) (bind : Option String)
  | join (of : String) (type : Join) (bind : Option String)
  | filter (of : String) (guard : Guard) (criterion : Criterion)
  | onJoin (join of : String) (guard : Guard) (criterion : Criterion)
  | filterExpression (e : Expression NodeName) (guard : Guard) (criterion : Criterion)
  | hasRows (sub : String) (negated : Bool)
  | group (junction : Junction) (body : List Step)
  | sub (body : List Step) (bind : Option String)
  | select (of : String)
  | selectAggregate (func : Aggregate) (distinct : Bool) (of : String)
  | selectExpression (e : Expression NodeName)
  | distinct
  | groupBy (of : String)
  | groupByExpression (e : Expression NodeName)
  | orderBy (of : String) (direction : Direction)
  | orderByExpression (e : Expression NodeName) (direction : Direction)
  | setParameter (name : String) (value : Value)
  | compile
  | diagnostic
  /-- The reports on a node and the tree under it. -/
  | reports (of : String)
  | list (session : Session)
  | unique (session : Session)
  /-- Queues a result set, given by the columns and values of its rows. -/
  | queueRows (rows : List (List String × List Value))
  | recorder
  | resetCount
  /-- Runs the query a number of times and checks how many were received. A run that breaks off
  fails the check. -/
  | checkCount (atMost : Bool) (expected runs : Nat)
  | attempt (step : Step)

/-- What a restriction requires of its subject. -/
inductive Criterion
  | compare (op : Comparison) (value : Value)
  | compareParameter (op : Comparison) (name : String)
  /-- Comparison with the property that a body accesses and binds to a name. -/
  | compareProperty (op : Comparison) (body : List Step) (property : String)
  | compareExpression (op : Comparison) (e : Expression NodeName)
  | between (low high : Value)
  | oneOf (values : List Value) (negated : Bool)
  | inSub (sub : String) (negated : Bool)
  | isNull (negated : Bool)
  /-- Nothing: the restriction is dropped. -/
  | nothing

end

/-- Whether a body goes on after the step has failed. -/
def Step.isAttempt : Step → Bool
  | .attempt _ => true
  | _ => false

/-! ## Results -/

/-- What is told of a placeholder that a step has made. -/
structure PlaceholderReport where
  placeholder : Placeholder
  target : String
  path : String
  reference : String
deriving DecidableEq, Repr

/-- The result of a step that succeeded. -/
inductive Outcome
  | done
  | placeholder (r : PlaceholderReport)
  | node (i : Nat)
  | paths (ps : List String)
  | sub (scope : Nat)
  | compiled (c : Compiled)
  | text (s : String)
  | reports (rs : List NodeReport)
  | rows (rs : List Row)
  | row (r : Row)
  | recorder (r : Recorder)
  | verdict (passed : Bool)

/-- What is told of a step: its result, the query after it, and the steps inside it that ran. -/
inductive Entry
  | mk (result : Except Error Outcome) (pending : List String) (nodes current : Nat)
      (nested : List Entry)

end PathQuery.Script
