import PathQuery.Text.Hex

/-!
# Characters, strings and keys of TOML texts

**Strings** come in four forms. Basic ones stand in double quotes and have escapes, literal ones
stand in single quotes and have none; both may be written over several lines between three
quotes. A line break right after the opening quotes is dropped, every other one is a line feed,
and in a basic string a backslash at the end of a line drops the break and all white space up to
the next character. One or two quotes may stand anywhere in a string of several lines, also right
before the closing ones.

**Keys** are bare words or strings of one line, separated by points.
-/

namespace PathQuery.Toml

/-- What a reader takes from the start of a text, and the rest. -/
abbrev Reader (α : Type) := List Char → Option (α × List Char)

/-! ## Characters -/

def isGap (c : Char) : Bool := c = ' ' || c = '\t'

def skipGap (cs : List Char) : List Char := cs.dropWhile isGap

/-- Whether a character may stand in a comment: no control character but the tab. -/
def isPlain (c : Char) : Bool := c = '\t' || (0x20 ≤ c.toNat && c.toNat != 0x7F)

/-- The rest after a line break. -/
def lineBreak? : List Char → Option (List Char)
  | '\n' :: rest | '\r' :: '\n' :: rest => some rest
  | _ => none

/-- The rest after the end of a line with white space and a comment in front of it. -/
def lineEnd? (cs : List Char) : Option (List Char) :=
  let rest := match skipGap cs with
    | '#' :: comment => comment.dropWhile isPlain
    | rest => rest
  if rest.isEmpty then some [] else lineBreak? rest

/-- The rest after white space, line breaks and whole lines of comment; `inside` says whether the
text starts inside a comment. -/
def skipLines : (inside : Bool) → List Char → Option (List Char)
  | _, '\n' :: rest | _, '\r' :: '\n' :: rest => skipLines false rest
  | true, c :: rest => if isPlain c then skipLines true rest else none
  | true, [] => none
  | false, '#' :: rest => skipLines true rest
  | false, ' ' :: rest | false, '\t' :: rest => skipLines false rest
  | false, rest => some rest

/-! ## Strings -/

/-- The character with a number in hexadecimal digits, unless there is none. -/
def escaped? (digits : List Char) : Option Char := do
  let n ← Text.ofHexDigits? digits
  if n.isValidChar then some (Char.ofNat n) else none

/-- The character of a short escape. -/
def shortEscape? : Char → Option Char
  | 'b' => some '\x08'
  | 't' => some '\t'
  | 'n' => some '\n'
  | 'f' => some '\x0c'
  | 'r' => some '\r'
  | '"' => some '"'
  | '\\' => some '\\'
  | _ => none

/-- Puts a character in front of what a reader took. -/
def cons (c : Char) : Option (List Char × List Char) → Option (List Char × List Char) :=
  Option.map fun (taken, rest) => (c :: taken, rest)

/-- The rest of a basic string on one line, behind its opening quote. -/
def basicRest : Reader (List Char)
  | '"' :: rest => some ([], rest)
  | '\\' :: 'u' :: a :: b :: c :: d :: rest => do cons (← escaped? [a, b, c, d]) (basicRest rest)
  | '\\' :: 'U' :: a :: b :: c :: d :: e :: f :: g :: h :: rest => do
    cons (← escaped? [a, b, c, d, e, f, g, h]) (basicRest rest)
  | '\\' :: c :: rest => do cons (← shortEscape? c) (basicRest rest)
  | c :: rest => if isPlain c && c != '\\' then cons c (basicRest rest) else none
  | [] => none

/-- The rest of a literal string on one line, behind its opening quote. -/
def literalRest : Reader (List Char)
  | '\'' :: rest => some ([], rest)
  | c :: rest => if isPlain c then cons c (literalRest rest) else none
  | [] => none

/-- Whether nothing but white space stands before the next line break. -/
def endsLine (cs : List Char) : Bool := (lineBreak? (skipGap cs)).isSome

/-- The rest of a basic string of several lines; `trimming` says whether white space is dropped. -/
def basicLines : (trimming : Bool) → Reader (List Char)
  | true, ' ' :: rest | true, '\t' :: rest | true, '\n' :: rest | true, '\r' :: '\n' :: rest =>
    basicLines true rest
  | _, '"' :: '"' :: '"' :: '"' :: '"' :: rest => some (['"', '"'], rest)
  | _, '"' :: '"' :: '"' :: '"' :: rest => some (['"'], rest)
  | _, '"' :: '"' :: '"' :: rest => some ([], rest)
  | _, '\\' :: 'u' :: a :: b :: c :: d :: rest => do
    cons (← escaped? [a, b, c, d]) (basicLines false rest)
  | _, '\\' :: 'U' :: a :: b :: c :: d :: e :: f :: g :: h :: rest => do
    cons (← escaped? [a, b, c, d, e, f, g, h]) (basicLines false rest)
  | _, '\\' :: c :: rest =>
    if endsLine (c :: rest) then basicLines true (c :: rest)
    else do cons (← shortEscape? c) (basicLines false rest)
  | _, '\n' :: rest | _, '\r' :: '\n' :: rest => cons '\n' (basicLines false rest)
  | _, c :: rest => if isPlain c && c != '\\' then cons c (basicLines false rest) else none
  | _, [] => none

/-- The rest of a literal string of several lines. -/
def literalLines : Reader (List Char)
  | '\'' :: '\'' :: '\'' :: '\'' :: '\'' :: rest => some (['\'', '\''], rest)
  | '\'' :: '\'' :: '\'' :: '\'' :: rest => some (['\''], rest)
  | '\'' :: '\'' :: '\'' :: rest => some ([], rest)
  | '\n' :: rest | '\r' :: '\n' :: rest => cons '\n' (literalLines rest)
  | c :: rest => if isPlain c then cons c (literalLines rest) else none
  | [] => none

/-- The text without a line break at its start. -/
def dropBreak (cs : List Char) : List Char := (lineBreak? cs).getD cs

/-- A string on one line. -/
def lineString : Reader String
  | '"' :: rest => (basicRest rest).map fun (s, rest) => (String.ofList s, rest)
  | '\'' :: rest => (literalRest rest).map fun (s, rest) => (String.ofList s, rest)
  | _ => none

/-- A string of any form. -/
def string : Reader String
  | '"' :: '"' :: '"' :: rest =>
    (basicLines false (dropBreak rest)).map fun (s, rest) => (String.ofList s, rest)
  | '\'' :: '\'' :: '\'' :: rest =>
    (literalLines (dropBreak rest)).map fun (s, rest) => (String.ofList s, rest)
  | cs => lineString cs

/-! ## Keys -/

def isBare (c : Char) : Bool := c.isAlphanum || c = '-' || c = '_'

/-- One part of a key. -/
def keyPart (cs : List Char) : Option (String × List Char) :=
  let word := cs.takeWhile isBare
  if word.isEmpty then lineString cs
  else some (String.ofList word, cs.dropWhile isBare)

/-- The parts of a key with white space around them, with fuel for each of them. -/
def keyParts : Nat → Reader (List String)
  | 0, _ => none
  | fuel + 1, cs => do
    let (part, rest) ← keyPart (skipGap cs)
    match skipGap rest with
    | '.' :: rest =>
      let (parts, rest) ← keyParts fuel rest
      return (part :: parts, rest)
    | rest => return ([part], rest)

/-- The greatest number of parts of a key, and of arrays and tables inside each other. -/
def maxDepth : Nat := 79

/-- The path and the last part of a key. -/
def key (cs : List Char) : Option ((List String × String) × List Char) := do
  let (parts, rest) ← keyParts maxDepth cs
  let last ← parts.getLast?
  return ((parts.dropLast, last), rest)

end PathQuery.Toml
