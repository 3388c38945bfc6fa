import PathQuery.Calendar.Moment
import PathQuery.Number.Power
import PathQuery.Text.Blank

/-!
# Reading dates and times

Each reader takes the whole text or gives nothing. Numbers may have white space before them, and
white space may stand before a separator and at the end.

- A year is up to four digits, or a sign and any number of digits.
- A month, a day, an hour, a minute and a second are one or two digits.
- A fraction of a second follows a point; digits past the ninth are dropped.
- An offset from UTC is `Z`, `UTC`, or a sign and two digits each for hours and minutes.
-/

namespace PathQuery.Calendar

open Text (dropBlanks isBlank)

/-- What a step of a reader yields: a result and the text that follows it. -/
abbrev Step (α : Type) := List Char → Option (α × List Char)

/-- The number written by at least one and at most `most` digits. -/
def digitsUpTo (most : Nat) : Step Nat := fun cs =>
  let ds := (cs.take most).takeWhile Char.isDigit
  if ds.isEmpty then none
  else some (ds.foldl (fun n c => 10 * n + (c.toNat - '0'.toNat)) 0, cs.drop ds.length)

/-- One given character. -/
def literal (c : Char) : Step Unit
  | d :: rest => if c = d then some ((), rest) else none
  | [] => none

/-- A number of at most two digits after optional white space. -/
def small : Step Nat := fun cs => digitsUpTo 2 (dropBlanks cs)

/-- A year after optional white space. -/
def yearStep : Step Int := fun cs =>
  match dropBlanks cs with
  | '-' :: rest => do
    let (n, rest) ← digitsUpTo rest.length rest
    return (-(n : Int), rest)
  | '+' :: rest => do
    let (n, rest) ← digitsUpTo rest.length rest
    return ((n : Int), rest)
  | rest => do
    let (n, rest) ← digitsUpTo 4 rest
    return ((n : Int), rest)

/-- A day, up to its last digit. -/
def dateStep : Step Date := fun cs => do
  let (y, cs) ← yearStep cs
  let (_, cs) ← literal '-' (dropBlanks cs)
  let (m, cs) ← small cs
  let (_, cs) ← literal '-' (dropBlanks cs)
  let (d, cs) ← small cs
  return (← Date.of? y m d, cs)

/-- Nanoseconds after a point, if there is one. -/
def fraction : Step Nat
  | '.' :: cs => do
    let ds := (cs.take 9).takeWhile Char.isDigit
    let (n, _) ← digitsUpTo 9 cs
    return (n * tenTo (9 - ds.length), cs.dropWhile Char.isDigit)
  | cs => some (0, cs)

/-- A colon and a second with its fraction. -/
def seconds : Step (Nat × Nat) := fun cs => do
  let (_, cs) ← literal ':' (dropBlanks cs)
  let (s, cs) ← small cs
  let (f, cs) ← fraction cs
  return ((s, f), dropBlanks cs)

/-- An hour, a colon and a minute. -/
def hourMinute : Step (Nat × Nat) := fun cs => do
  let (h, cs) ← small cs
  let (_, cs) ← literal ':' (dropBlanks cs)
  let (m, cs) ← small cs
  return ((h, m), cs)

/-- A time of day with its seconds. -/
def clockStep : Step Clock := fun cs => do
  let ((h, m), cs) ← hourMinute cs
  let ((s, f), cs) ← seconds cs
  return (← Clock.of? h m s f, cs)

/-- Minutes ahead of UTC. -/
def offset (cs : List Char) : Option (Int × List Char) :=
  match cs with
  | 'Z' :: rest | 'z' :: rest => some (0, rest)
  | u :: t :: c :: rest =>
    if u.toUpper = 'U' ∧ t.toUpper = 'T' ∧ c.toUpper = 'C' then some (0, rest)
    else signed u (t :: c :: rest)
  | sign :: rest => signed sign rest
  | [] => none
where
  /-- Two digits that make a number. -/
  pair : List Char → Option (Nat × List Char)
    | a :: b :: rest =>
      if a.isDigit ∧ b.isDigit then
        some (10 * (a.toNat - '0'.toNat) + (b.toNat - '0'.toNat), rest)
      else none
    | _ => none
  /-- The hours and minutes after a sign; the minus sign proper is accepted too. -/
  signed (sign : Char) (rest : List Char) : Option (Int × List Char) := do
    let negative ← if sign = '+' then some false
      else if sign = '-' ∨ sign = '−' then some true else none
    let (h, rest) ← pair rest
    let (m, rest) ← pair (rest.dropWhile fun c => c = ':' || isBlank c)
    if h < 24 ∧ m < 60 then
      let minutes : Int := h * 60 + m
      return (if negative then -minutes else minutes, rest)
    else none

/-- The result of a step that leaves nothing but white space. -/
def whole {α : Type} (step : Step α) (s : String) : Option α := do
  let (x, rest) ← step s.toList
  if (dropBlanks rest).isEmpty then some x else none

/-- Reads a day. -/
def Date.read? (s : String) : Option Date := whole dateStep s

/-- Reads a time of day, whose seconds may be absent. -/
def Clock.read? (s : String) : Option Clock :=
  match hourMinute s.toList with
  | none => none
  | some ((h, m), cs) =>
    match seconds cs with
    | some ((sec, f), rest) => if rest.isEmpty then Clock.of? h m sec f else none
    | none => if (dropBlanks cs).isEmpty then Clock.of? h m 0 0 else none

/-- Reads a day and a time of day with a `T` between them. -/
def Moment.read? (s : String) : Option Moment :=
  whole (fun cs => do
    let (d, cs) ← dateStep cs
    let (_, cs) ← literal 'T' (dropBlanks cs)
    let (c, cs) ← clockStep cs
    return (⟨d, c⟩, cs)) s

/-- Reads a moment with an offset and gives it in UTC. -/
def Moment.readUtc? (s : String) : Option Moment :=
  whole (fun cs => do
    let (d, cs) ← dateStep cs
    let cs ← match cs with
      | 't' :: rest | 'T' :: rest | ' ' :: rest => some rest
      | _ => none
    let (c, cs) ← clockStep cs
    let (ahead, cs) ← offset (dropBlanks cs)
    return (← (Moment.mk d c).toUtc? ahead, cs)) s

/-! ## Examples -/

/-- The text of a moment read in UTC. -/
def utcText (s : String) : Option String :=
  (Moment.readUtc? s).map fun m => String.ofList (m.write 'T')

example : utcText "2024-02-29T23:30:00-01:45" = some "2024-03-01T01:15:00" := by decide +kernel
example : utcText "2024-01-01 00:00:60.5 +0100" = some "2023-12-31T23:00:60.500" := by
  decide +kernel
example : utcText "2024-01-01T00:00:00" = none := by decide +kernel
example : Clock.read? "7:5" = Clock.of? 7 5 0 0 := by decide +kernel
example : Clock.read? "24:00" = none := by decide +kernel
example : Date.read? "+10000-1-1" = Date.of? 10000 1 1 := by decide +kernel
example : Date.read? "10000-1-1" = none := by decide +kernel

end PathQuery.Calendar
