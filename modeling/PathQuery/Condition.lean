import PathQuery.Operand

/-!
# Conditions

A `Test` compares operands or asks about a sub-query; a `Condition` is a test with a guard, or a
group of conditions under one junction.

**Guards.** A guard says for which values a test is rendered at all. It looks at the values a test
tests against: the right side of a comparison, both bounds of a range, the candidates of a list as
one list value. Operands that are no values are passed over, so a test without values always
applies. A group applies when one of its members does.

**Boolean structure** (`conjunction`). The conditions that apply are written as a list of tokens,
joined by `and`. A group of which one member applies is that member, any other group stands in
parentheses. A condition that does not apply leaves no token.
-/

namespace PathQuery

/-- Comparison operators. -/
inductive Comparison
  | eq | ne | lt | le | gt | ge | like | notLike
deriving DecidableEq, Repr

/-- An operator in the text of a query. -/
def Comparison.symbol : Comparison → String
  | .eq => "="
  | .ne => "<>"
  | .lt => "<"
  | .le => "<="
  | .gt => ">"
  | .ge => ">="
  | .like => "like"
  | .notLike => "not like"

/-- How the members of a group are combined. -/
inductive Junction
  | and
  | or
deriving DecidableEq, Repr

/-- What stands between the members of a group. -/
def Junction.separator : Junction → String
  | .and => " and "
  | .or => " or "

/-! ## Guards -/

/-- For which values a test is rendered. -/
inductive Guard
  | always
  | notNull
  | notEmpty
  | custom (accepts : Value → Bool)

namespace Guard

/-- Whether a value passes. -/
def accepts : Guard → Value → Bool
  | .always, _ => true
  | .notNull, v => !v.isNull
  | .notEmpty, v => !v.isEmpty
  | .custom accepts, v => accepts v

def isAlways : Guard → Bool
  | .always => true
  | _ => false

/-- The name of a guard, for readers. -/
def diagnostic : Guard → String
  | .always => "Always"
  | .notNull => "NotNull"
  | .notEmpty => "NotEmpty"
  | .custom _ => "Custom(..)"

theorem accepts_of_isAlways {g : Guard} (h : g.isAlways = true) (v : Value) :
    g.accepts v = true := by
  cases g <;> first | rfl | cases h

end Guard

/-! ## Tests -/

/-- One restriction. -/
inductive Test
  | compare (left : Operand Nat) (op : Comparison) (right : Operand Nat)
  | between (operand low high : Operand Nat)
  | oneOf (operand : Operand Nat) (candidates : List (Operand Nat)) (negated : Bool)
  /-- Membership in the rows of a sub-query. -/
  | inSub (operand : Operand Nat) (scope : Nat) (negated : Bool)
  /-- Whether a sub-query has rows. -/
  | hasRows (scope : Nat) (negated : Bool)
  | isNull (operand : Operand Nat) (negated : Bool)

/-- The values that a guard looks at. -/
def Test.guarded (b : Bindings) : Test → List Value
  | .compare _ _ right => (right.resolve? b).toList
  | .between _ low high => [low, high].filterMap (·.resolve? b)
  | .oneOf _ candidates _ => [.list (candidates.filterMap (·.resolve? b))]
  | .inSub .. | .hasRows .. | .isNull .. => []

/-- Whether a guarded test is rendered. -/
def Test.applies (b : Bindings) (guard : Guard) (t : Test) : Bool :=
  guard.isAlways || (t.guarded b).all guard.accepts

/-! ## Conditions -/

inductive Condition
  | test (guard : Guard) (t : Test)
  | group (junction : Junction) (members : List Condition)

mutual

/-- Whether a condition is rendered. -/
def Condition.applies (b : Bindings) : Condition → Bool
  | .test guard t => t.applies b guard
  | .group _ members => Condition.anyApplies b members

def Condition.anyApplies (b : Bindings) : List Condition → Bool
  | [] => false
  | c :: cs => c.applies b || Condition.anyApplies b cs

end

/-- A token of the boolean structure of a text, whose tests are atoms. -/
inductive Token (α : Type)
  | atom (a : α)
  | opening
  | closing
  | junction (j : Junction)
deriving DecidableEq, Repr

/-- The parts of a group as one part. -/
def enclose {α : Type} (j : Junction) : List (List (Token α)) → List (Token α)
  | [part] => part
  | parts => .opening :: List.intercalate [.junction j] parts ++ [.closing]

mutual

/-- The tokens of a condition that applies. -/
def Condition.tokens (b : Bindings) : Condition → List (Token Test)
  | .test _ t => [.atom t]
  | .group j members => enclose j (Condition.parts b members)

/-- The tokens of each condition of a list that applies. -/
def Condition.parts (b : Bindings) : List Condition → List (List (Token Test))
  | [] => []
  | c :: cs => if c.applies b then c.tokens b :: Condition.parts b cs else Condition.parts b cs

end

/-- The conditions that apply, joined by `and`; nothing when none does. -/
def conjunction (b : Bindings) (cs : List Condition) : List (Token Test) :=
  List.intercalate [.junction .and] (Condition.parts b cs)

/-- The text of a structure, whose atoms are rendered by a given function. -/
def Token.fragment {α : Type} (atom : α → Fragment) : Token α → Fragment
  | .atom a => atom a
  | .opening => [.text "("]
  | .closing => [.text ")"]
  | .junction j => [.text j.separator]

end PathQuery
