import PathQuery.Fragment
import PathQuery.Graph.Reference

/-!
# Operands and expressions

Anything that can stand where a property would: a node, a value, a named parameter bound later, or
an expression over these. The type `ν` is what a node is named by: its number in a query, or a
handle where an expression is written down before it is looked up. Expressions are functions,
aggregates, raw text and literals; a program has no way to add a kind of its own.

**Rendering** (`Operand.fragment`). A node is written by its reference, a value by a slot, a named
parameter by a slot of its name if it is bound. Raw text has a slot for each `?`; if there are not
as many values as marks it is a fault, before any of its values is bound.
-/

namespace PathQuery

/-- Aggregate functions. -/
inductive Aggregate
  | count
  | sum
  | avg
  | min
  | max
deriving DecidableEq, Repr

/-- The name of an aggregate function in the text of a query. -/
def Aggregate.name : Aggregate → String
  | .count => "count"
  | .sum => "sum"
  | .avg => "avg"
  | .min => "min"
  | .max => "max"

mutual

inductive Operand (ν : Type)
  | node (n : ν)
  | value (v : Value)
  | parameter (name : String)
  | expression (e : Expression ν)

inductive Expression (ν : Type)
  | call (name : String) (args : List (Operand ν))
  | aggregate (func : Aggregate) (distinct : Bool) (arg : Operand ν)
  /-- Text with a value for each question mark. -/
  | raw (text : String) (values : List Value)
  | literal (v : Value)

end

/-! ## Looking up names of nodes -/

mutual

/-- The operand with its nodes looked up, or the first failure in reading order. -/
def Operand.lookUp {ν μ ε : Type} (f : ν → Except ε μ) : Operand ν → Except ε (Operand μ)
  | .node n => (f n).map .node
  | .value v => .ok (.value v)
  | .parameter name => .ok (.parameter name)
  | .expression e => (e.lookUp f).map .expression

/-- The expression with its nodes looked up. -/
def Expression.lookUp {ν μ ε : Type} (f : ν → Except ε μ) :
    Expression ν → Except ε (Expression μ)
  | .call name args => (Operand.lookUpAll f args).map (.call name)
  | .aggregate func distinct arg => (arg.lookUp f).map (.aggregate func distinct)
  | .raw text values => .ok (.raw text values)
  | .literal v => .ok (.literal v)

def Operand.lookUpAll {ν μ ε : Type} (f : ν → Except ε μ) :
    List (Operand ν) → Except ε (List (Operand μ))
  | [] => .ok []
  | a :: rest =>
    match a.lookUp f with
    | .error e => .error e
    | .ok a => (Operand.lookUpAll f rest).map (a :: ·)

end

/-! ## Rendering -/

/-- The parts of a text between its question marks. -/
def splitMarks : List Char → List (List Char)
  | [] => [[]]
  | c :: cs =>
    if c = '?' then [] :: splitMarks cs
    else match splitMarks cs with
      | [] => [[c]]
      | part :: parts => (c :: part) :: parts

/-- Parts of a text with a slot after each of them but the last. -/
def weave : List (List Char) → List Value → Fragment
  | part :: parts, v :: vs => .text (String.ofList part) :: .slot none v :: weave parts vs
  | parts, _ => parts.map fun part => .text (String.ofList part)

/-- Raw text with its values in the places of the question marks. -/
def rawFragment (text : String) (values : List Value) : Fragment :=
  let parts := splitMarks text.toList
  if parts.length = values.length + 1 then weave parts values
  else [.fault (.markerCount text (parts.length - 1) values.length)]

/-- A node by its reference. -/
def Graph.nodeFragment (g : Graph) (i : Nat) : Fragment :=
  if i < g.size then [.text (g.reference i)] else [.fault (.missingNode i)]

mutual

def Operand.fragment (g : Graph) (b : Bindings) : Operand Nat → Fragment
  | .node i => g.nodeFragment i
  | .value v => [.slot none v]
  | .parameter name =>
    match b.get? name with
    | some v => [.slot (some name) v]
    | none => [.fault (.unboundParameter name)]
  | .expression e => e.fragment g b

def Expression.fragment (g : Graph) (b : Bindings) : Expression Nat → Fragment
  | .call name args =>
    .text (name ++ "(") :: Fragment.joined ", " (Operand.fragments g b args) ++ [.text ")"]
  | .aggregate func distinct arg =>
    .text (func.name ++ "(" ++ if distinct then "distinct " else "") :: arg.fragment g b ++
      [.text ")"]
  | .raw text values => rawFragment text values
  | .literal v => [.slot none v]

def Operand.fragments (g : Graph) (b : Bindings) : List (Operand Nat) → List Fragment
  | [] => []
  | a :: rest => a.fragment g b :: Operand.fragments g b rest

end

/-- The value that an operand stands for by itself, if it is a value or a named parameter; a
parameter that is not bound stands for null. -/
def Operand.resolve? {ν : Type} (b : Bindings) : Operand ν → Option Value
  | .value v => some v
  | .parameter name => some ((b.get? name).getD .null)
  | .node _ | .expression _ => none

/-- The node that an operand is, if it is one. -/
def Operand.node? {ν : Type} : Operand ν → Option ν
  | .node n => some n
  | _ => none

end PathQuery
