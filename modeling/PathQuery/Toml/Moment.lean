import PathQuery.Calendar.Moment
import PathQuery.Toml.Text

/-!
# Dates and times in TOML texts

A day, a time of day, or both with a `T` or a space between them, and then perhaps an offset from
UTC. All numbers have two digits, years four. The result is a text in the same notation: with a
`T`, with at most nine digits of a fraction and none that is a trailing zero, with `Z` or a
signed offset.

A moment may also be quoted, as the content of a string. Then it is the whole of that string.
-/

namespace PathQuery.Toml

open Calendar (padded)

/-- A number of exactly two digits, within bounds. -/
def two (low high : Nat) : Reader Nat
  | a :: b :: rest =>
    if a.isDigit && b.isDigit then
      let n := 10 * (a.toNat - '0'.toNat) + (b.toNat - '0'.toNat)
      if low ≤ n ∧ n ≤ high then some (n, rest) else none
    else none
  | _ => none

/-- The text of a day. -/
def dayText (cs : List Char) : Option (List Char × List Char) := do
  let (century, cs) ← two 0 99 cs
  let (year, cs) ← two 0 99 cs
  match cs with
  | '-' :: cs =>
    let (month, cs) ← two 1 12 cs
    match cs with
    | '-' :: cs =>
      let (day, cs) ← two 1 (Calendar.daysInMonth (100 * century + year : Nat) month) cs
      return (padded 2 century ++ padded 2 year ++ '-' :: padded 2 month ++ '-' :: padded 2 day, cs)
    | _ => none
  | _ => none

/-- The text of a fraction of a second, which may be absent. -/
def fractionText : List Char → List Char × List Char
  | '.' :: cs =>
    let ds := cs.takeWhile Char.isDigit
    if ds.isEmpty then ([], '.' :: cs)
    else
      let kept := ((ds.take 9).reverse.dropWhile (· == '0')).reverse
      (if kept.isEmpty then [] else '.' :: kept, cs.dropWhile Char.isDigit)
  | cs => ([], cs)

/-- The text of a time of day; the second may be a leap second. -/
def timeText (cs : List Char) : Option (List Char × List Char) := do
  let (hour, cs) ← two 0 23 cs
  match cs with
  | ':' :: cs =>
    let (minute, cs) ← two 0 59 cs
    match cs with
    | ':' :: cs =>
      let (second, cs) ← two 0 60 cs
      let (fraction, cs) := fractionText cs
      return (padded 2 hour ++ ':' :: padded 2 minute ++ ':' :: padded 2 second ++ fraction, cs)
    | _ => none
  | _ => none

/-- The text of a signed offset. No offset is negative and zero. -/
def signedOffset (negative : Bool) (cs : List Char) : Option (List Char × List Char) := do
  let (hours, cs) ← two 0 23 cs
  match cs with
  | ':' :: cs =>
    let (minutes, cs) ← two 0 59 cs
    let mark := if negative && (hours != 0 || minutes != 0) then '-' else '+'
    return (mark :: padded 2 hours ++ ':' :: padded 2 minutes, cs)
  | _ => none

/-- The text of an offset, which may be absent. -/
def offsetText : Reader (List Char)
  | 'Z' :: rest | 'z' :: rest => some (['Z'], rest)
  | '+' :: rest => signedOffset false rest
  | '-' :: rest => signedOffset true rest
  | rest => some ([], rest)

/-- The time of day and the offset that follow a day, if there are any. -/
def timeAfterDay (cs : List Char) : Option (List Char × List Char) :=
  match cs with
  | c :: rest =>
    if c = 'T' ∨ c = 't' ∨ c = ' ' then
      match timeText rest with
      | none => some ([], cs)
      | some (time, rest) =>
        (offsetText rest).map fun (offset, rest) => ('T' :: time ++ offset, rest)
    else some ([], cs)
  | [] => some ([], [])

/-- A day, a time of day, or both. -/
def moment (cs : List Char) : Option (String × List Char) :=
  match dayText cs with
  | some (day, rest) =>
    (timeAfterDay rest).map fun (time, rest) => (String.ofList (day ++ time), rest)
  | none => (timeText cs).map fun (time, rest) => (String.ofList time, rest)

/-- The text of a moment that is quoted. -/
def quotedMoment? (s : String) : Option String :=
  match moment s.toList with
  | some (text, []) => some text
  | _ => none

example : quotedMoment? "1979-05-27t23:59:60.50-00:00" = some "1979-05-27T23:59:60.5+00:00" := by
  decide +kernel
example : quotedMoment? "24:00:00" = none := by decide +kernel
example : quotedMoment? "1979-05-27Z" = none := by decide +kernel
example : quotedMoment? "07:32:00Z" = none := by decide +kernel

end PathQuery.Toml
