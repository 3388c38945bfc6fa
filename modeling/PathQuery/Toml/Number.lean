import PathQuery.Json.Basic
import PathQuery.Toml.Text

/-!
# Numbers in TOML texts

Digits may have single underscores between them. Integers are decimal with an optional sign, or
hexadecimal, octal or binary without one, and have to fit into 64 bits with sign. A number with a
point or an exponent is the double nearest to it; one that is too large is refused unless it is
negative. Numbers that are not finite have no counterpart in JSON and become null.
-/

namespace PathQuery

/-- The double nearest to `± n · 10^e`. Exponents far beyond the range of doubles are not
computed with. -/
def Double.ofDecimal (negative : Bool) (n : Nat) (e : Int) : Double :=
  if n = 0 then .zero negative
  else
    let leading : Int := e + (toString n).length
    if leading > 400 then .infinity negative
    else if leading < -400 then .zero negative
    else .ofRatio negative (n * tenTo e.toNat) (tenTo (-e).toNat)

namespace Toml

/-! ## Digits -/

/-- The value of a digit in a radix. -/
def digit? (radix : Nat) (c : Char) : Option Nat := (Text.hexValue? c).filter (· < radix)

/-- The digits that continue a number, each with an underscore before it or not. -/
def moreDigits (radix : Nat) : Reader (List Nat)
  | [] => some ([], [])
  | '_' :: c :: rest => do
    let d ← digit? radix c
    let (ds, rest) ← moreDigits radix rest
    return (d :: ds, rest)
  | c :: rest =>
    if c = '_' then none
    else match digit? radix c with
      | some d => (moreDigits radix rest).map fun (ds, rest) => (d :: ds, rest)
      | none => some ([], c :: rest)

/-- One or more digits. -/
def digits (radix : Nat) : Reader (List Nat)
  | [] => none
  | c :: rest => do
    let d ← digit? radix c
    let (ds, rest) ← moreDigits radix rest
    return (d :: ds, rest)

/-- Decimal digits with no leading zero. -/
def wholeDigits : Reader (List Nat)
  | '0' :: rest => some ([0], rest)
  | cs => digits 10 cs

/-- The number that digits stand for. -/
def ofDigits (radix : Nat) (ds : List Nat) : Nat := ds.foldl (fun n d => radix * n + d) 0

/-- Whether there is a minus sign at the start of a text, and the text without its sign. -/
def sign : List Char → Bool × List Char
  | '-' :: rest => (true, rest)
  | '+' :: rest => (false, rest)
  | rest => (false, rest)

/-! ## Numbers -/

/-- An integer, if it fits. -/
def integer? (negative : Bool) (n : Nat) : Option Json :=
  let i : Int := if negative then -n else n
  if fitsSigned 64 i then some (.int i) else none

/-- A double, unless it is the infinity of positive numbers. -/
def double? (d : Double) : Option Json :=
  if d.isFinite then some (.double d) else if d.isNegative then some .null else none

/-- An integer in another radix. -/
def radixInteger (radix : Nat) (cs : List Char) : Option (Json × List Char) := do
  let (ds, rest) ← digits radix cs
  return (← integer? false (ofDigits radix ds), rest)

/-- The exponent after its letter. -/
def exponent (cs : List Char) : Option (Int × List Char) := do
  let (negative, cs) := sign cs
  let (ds, rest) ← digits 10 cs
  let n : Int := ofDigits 10 ds
  return (if negative then -n else n, rest)

/-- What follows the digits before the point. -/
def decimal (negative : Bool) (whole : List Nat) (cs : List Char) : Option (Json × List Char) := do
  let withExponent (fraction : List Nat) (cs : List Char) : Option (Json × List Char) := do
    let (e, rest) ← exponent cs
    let n := ofDigits 10 (whole ++ fraction)
    return (← double? (.ofDecimal negative n (e - fraction.length)), rest)
  match cs with
  | '.' :: rest =>
    let (fraction, rest) ← digits 10 rest
    match rest with
    | 'e' :: rest | 'E' :: rest => withExponent fraction rest
    | rest =>
      let n := ofDigits 10 (whole ++ fraction)
      return (← double? (.ofDecimal negative n (-(fraction.length : Int))), rest)
  | 'e' :: rest | 'E' :: rest => withExponent [] rest
  | rest => return (← integer? negative (ofDigits 10 whole), rest)

/-- A number. -/
def number : Reader Json
  | '0' :: 'x' :: rest => radixInteger 16 rest
  | '0' :: 'o' :: rest => radixInteger 8 rest
  | '0' :: 'b' :: rest => radixInteger 2 rest
  | cs =>
    match sign cs with
    | (_, 'i' :: 'n' :: 'f' :: rest) | (_, 'n' :: 'a' :: 'n' :: rest) => some (.null, rest)
    | (negative, cs) => do
      let (whole, rest) ← wholeDigits cs
      decimal negative whole rest

end Toml

end PathQuery
