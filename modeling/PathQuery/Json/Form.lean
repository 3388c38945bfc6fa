import PathQuery.Text.Hex

/-!
# JSON texts

`Form` is a JSON text as it is written: numbers are digits, strings are characters and escaped
UTF-16 units, and members stand in written order with repeated names. `Form.read?` checks the
grammar and nothing else, so a reader may look at a part of a text without judging the rest:
ranges of numbers, lone surrogates and depth are matters of what a part is read as.
-/

namespace PathQuery.Json

/-- A number as it is written. -/
structure Lexeme where
  negative : Bool
  whole : List Nat
  /-- The digits after the point; empty without a point. -/
  fraction : List Nat
  /-- The sign and the digits of the exponent, if there is one. -/
  exponent : Option (Bool × List Nat)

/-- One unit of a string as it is written. -/
inductive StringUnit
  | char (c : Char)
  | escape (unit : Nat)

/-- A JSON text as it is written. -/
inductive Form
  | null
  | bool (b : Bool)
  | number (n : Lexeme)
  | string (units : List StringUnit)
  | array (items : List Form)
  | object (members : List (List StringUnit × Form))
deriving Inhabited

namespace Form

/-! ## Numbers -/

/-- The leading digits of a text, and what follows them. -/
def takeDigits (cs : List Char) : List Nat × List Char :=
  ((cs.takeWhile Char.isDigit).map (·.toNat - '0'.toNat), cs.dropWhile Char.isDigit)

/-- The digits before the point: a single zero, or digits that start with another one. -/
def readWhole : List Char → Option (List Nat × List Char)
  | '0' :: rest => some ([0], rest)
  | cs =>
    let (ds, rest) := takeDigits cs
    if ds.isEmpty then none else some (ds, rest)

/-- A point and the digits after it, which may both be absent. -/
def readFraction : List Char → Option (List Nat × List Char)
  | '.' :: cs =>
    let (ds, rest) := takeDigits cs
    if ds.isEmpty then none else some (ds, rest)
  | cs => some ([], cs)

/-- The digits of an exponent behind its sign. -/
def readExponentDigits (negative : Bool) (cs : List Char) :
    Option (Option (Bool × List Nat) × List Char) :=
  let (ds, rest) := takeDigits cs
  if ds.isEmpty then none else some (some (negative, ds), rest)

/-- An exponent, which may be absent. -/
def readExponent (cs : List Char) : Option (Option (Bool × List Nat) × List Char) :=
  match cs with
  | 'e' :: '-' :: rest | 'E' :: '-' :: rest => readExponentDigits true rest
  | 'e' :: '+' :: rest | 'E' :: '+' :: rest => readExponentDigits false rest
  | 'e' :: rest | 'E' :: rest => readExponentDigits false rest
  | _ => some (none, cs)

/-- A number behind its sign. -/
def readNumber (negative : Bool) (cs : List Char) : Option (Form × List Char) := do
  let (whole, cs) ← readWhole cs
  let (fraction, cs) ← readFraction cs
  let (exponent, cs) ← readExponent cs
  return (.number ⟨negative, whole, fraction, exponent⟩, cs)

/-! ## Strings -/

/-- The rest of a string behind its opening quote, and what follows the closing one. -/
def readString : List Char → Option (List StringUnit × List Char)
  | '"' :: rest => some ([], rest)
  | '\\' :: 'u' :: a :: b :: c :: d :: rest => do
    let unit ← Text.ofHexDigits? [a, b, c, d]
    let (units, rest) ← readString rest
    return (.escape unit :: units, rest)
  | '\\' :: c :: rest => do
    let c ← match c with
      | '"' => some '"'
      | '\\' => some '\\'
      | '/' => some '/'
      | 'b' => some '\x08'
      | 'f' => some '\x0c'
      | 'n' => some '\n'
      | 'r' => some '\r'
      | 't' => some '\t'
      | _ => none
    let (units, rest) ← readString rest
    return (.char c :: units, rest)
  | c :: rest => do
    if c.toNat < 0x20 ∨ c = '\\' then none
    let (units, rest) ← readString rest
    return (.char c :: units, rest)
  | [] => none

/-! ## Values -/

def isSpace (c : Char) : Bool := c = ' ' || c = '\t' || c = '\n' || c = '\r'

def skipSpace (cs : List Char) : List Char := cs.dropWhile isSpace

mutual

/-- A value at the start of a text. The fuel bounds the number of steps; the length of the text
is enough. -/
def readValue : Nat → List Char → Option (Form × List Char)
  | 0, _ => none
  | fuel + 1, cs =>
    match skipSpace cs with
    | 'n' :: 'u' :: 'l' :: 'l' :: rest => some (.null, rest)
    | 't' :: 'r' :: 'u' :: 'e' :: rest => some (.bool true, rest)
    | 'f' :: 'a' :: 'l' :: 's' :: 'e' :: rest => some (.bool false, rest)
    | '"' :: rest => (readString rest).map fun (units, rest) => (.string units, rest)
    | '[' :: rest =>
      match skipSpace rest with
      | ']' :: rest => some (.array [], rest)
      | rest => (readItems fuel rest).map fun (items, rest) => (.array items, rest)
    | '\x7b' :: rest =>
      match skipSpace rest with
      | '\x7d' :: rest => some (.object [], rest)
      | rest => (readMembers fuel rest).map fun (members, rest) => (.object members, rest)
    | '-' :: rest => readNumber true rest
    | rest => readNumber false rest

/-- The items of an array up to its closing bracket. -/
def readItems : Nat → List Char → Option (List Form × List Char)
  | 0, _ => none
  | fuel + 1, cs => do
    let (item, cs) ← readValue fuel cs
    match skipSpace cs with
    | ']' :: rest => some ([item], rest)
    | ',' :: rest =>
      let (items, rest) ← readItems fuel rest
      some (item :: items, rest)
    | _ => none

/-- The members of an object up to its closing brace. -/
def readMembers : Nat → List Char → Option (List (List StringUnit × Form) × List Char)
  | 0, _ => none
  | fuel + 1, cs =>
    match skipSpace cs with
    | '"' :: rest => do
      let (name, cs) ← readString rest
      match skipSpace cs with
      | ':' :: rest =>
        let (value, cs) ← readValue fuel rest
        match skipSpace cs with
        | '\x7d' :: rest => some ([(name, value)], rest)
        | ',' :: rest =>
          let (members, rest) ← readMembers fuel rest
          some ((name, value) :: members, rest)
        | _ => none
      | _ => none
    | _ => none

end

/-- The written form of a whole text. -/
def read? (s : String) : Option Form := do
  let cs := s.toList
  let (form, rest) ← readValue (2 * cs.length + 2) cs
  if (skipSpace rest).isEmpty then some form else none

end Form

end PathQuery.Json
