import PathQuery.Calendar.Date

/-!
# Times of day and moments

A `Clock` is a time of day down to the nanosecond. The second may be 60, which is a leap second.
A `Moment` is a day with a time of day; where a time zone matters it is a moment in UTC, and
`Moment.toUtc?` takes a local moment there.

A fraction of a second is written with three, six or nine digits, whichever is the least number
that loses nothing, and not at all when it is zero.
-/

namespace PathQuery.Calendar

/-- Whether the numbers name a time of day. -/
def isTime (hour minute second nanosecond : Nat) : Bool :=
  hour < 24 && minute < 60 && second ≤ 60 && nanosecond < 1000000000

/-- A time of day. -/
structure Clock where
  hour : Nat
  minute : Nat
  second : Nat
  nanosecond : Nat
  isTime_eq : isTime hour minute second nanosecond = true
deriving DecidableEq, Repr

namespace Clock

/-- The time of day with these numbers, if there is one. -/
def of? (hour minute second nanosecond : Nat) : Option Clock :=
  if h : isTime hour minute second nanosecond = true then
    some ⟨hour, minute, second, nanosecond, h⟩
  else none

def fractionText (nanosecond : Nat) : List Char :=
  if nanosecond = 0 then []
  else if nanosecond % 1000000 = 0 then '.' :: padded 3 (nanosecond / 1000000)
  else if nanosecond % 1000 = 0 then '.' :: padded 6 (nanosecond / 1000)
  else '.' :: padded 9 nanosecond

def write (c : Clock) : List Char :=
  padded 2 c.hour ++ ':' :: padded 2 c.minute ++ ':' :: padded 2 c.second ++
    fractionText c.nanosecond

end Clock

/-- A day with a time of day. -/
structure Moment where
  date : Date
  clock : Clock
deriving DecidableEq, Repr

namespace Moment

/-- The moment in UTC of a local moment whose clocks are ahead by a number of minutes, less than
a day either way. There is none when the day falls out of the supported years. -/
def toUtc? (m : Moment) (ahead : Int) : Option Moment := do
  let minutes : Int := m.clock.hour * 60 + m.clock.minute - ahead
  let date ← if minutes < 0 then m.date.yesterday?
    else if 1440 ≤ minutes then m.date.tomorrow?
    else some m.date
  let inDay := (minutes % 1440).toNat
  let clock ← Clock.of? (inDay / 60) (inDay % 60) m.clock.second m.clock.nanosecond
  return ⟨date, clock⟩

/-- The moment with a character between the day and the time of day. -/
def write (separator : Char) (m : Moment) : List Char :=
  m.date.write ++ separator :: m.clock.write

end Moment

end PathQuery.Calendar
