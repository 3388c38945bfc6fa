import PathQuery.Number.Double

/-!
# The shortest decimal that reads back

A finite double stands for the interval of real numbers that round to it; its ends belong to it
exactly when the significand is even. For one digit, two digits and so on, the value has two
neighbours on the decimal grid with that many digits. The first grid that has a neighbour inside
the interval wins; of two neighbours inside, the nearer one is taken, and `Tie` says which one
when both are equally near. Seventeen digits always suffice.

All comparisons are made on natural numbers: value, interval and grid are brought to a common
denominator.
-/

namespace PathQuery

/-- A decimal number `significand · 10^exponent`. -/
structure Decimal where
  significand : Nat
  exponent : Int
deriving DecidableEq, Repr

namespace Decimal

/-- The number with no zero at the end of a significand that is not zero itself. -/
def strip : Nat → Decimal → Decimal
  | 0, d => d
  | fuel + 1, d =>
    if d.significand % 10 = 0 ∧ d.significand ≠ 0 then
      strip fuel ⟨d.significand / 10, d.exponent + 1⟩
    else d

/-- The decimal digits of the significand. -/
def digits (d : Decimal) : List Char := (Nat.repr d.significand).toList

/-- The exponent of the leading digit. -/
def leading (d : Decimal) : Int := d.exponent + d.digits.length - 1

end Decimal

/-- Which of two equally near neighbours is taken. -/
inductive Tie
  | toEven
  | up
deriving DecidableEq, Repr

namespace Double

/-- The exponent `e` with `10^e ≤ num / den < 10^(e+1)`, for a positive quotient. -/
def decimalExponent (num den : Nat) : Int :=
  if den ≤ num then (Nat.repr (num / den)).length - 1
  else
    let k := (Nat.repr (den / num)).length - 1
    if num * tenTo k = den then -(k : Int) else -(k : Int) - 1

/-- The neighbour of `num / den` on the grid of multiples of `10^p` that lies inside the interval
with the given ends, if there is one. All three quotients have the denominator `den`. -/
def onGrid (tie : Tie) (closed : Bool) (low num high den : Nat) (p : Int) : Option Nat :=
  let unit := den * tenTo p.toNat
  let scale := tenTo (-p).toNat
  let below := num * scale / unit
  let inside (n : Nat) : Bool :=
    if closed then decide (low * scale ≤ n * unit ∧ n * unit ≤ high * scale)
    else decide (low * scale < n * unit ∧ n * unit < high * scale)
  let rest := 2 * (num * scale - below * unit)
  let lowerIsNearer := match tie with
    | .toEven => rest < unit || (rest == unit && below % 2 == 0)
    | .up => rest < unit
  if inside below && (lowerIsNearer || !inside (below + 1)) then some below
  else if inside (below + 1) then some (below + 1)
  else none

/-- The first grid with at most `fuel` further digits that has a point inside the interval. -/
def searchGrids (tie : Tie) (closed : Bool) (low num high den : Nat) : Nat → Int → Decimal
  | 0, p => ⟨num * tenTo (-p).toNat / (den * tenTo p.toNat), p⟩
  | fuel + 1, p =>
    match onGrid tie closed low num high den p with
    | some n => ⟨n, p⟩
    | none => searchGrids tie closed low num high den fuel (p - 1)

/-- The shortest decimal that rounds to the magnitude of a finite double. -/
def shortest (tie : Tie) (d : Double) : Decimal :=
  if d.isZero then ⟨0, 0⟩ else
  let m := d.significand
  -- Quarters of the quantum, since the gap below a power of two is half as wide.
  let (unit, den) := scaled 1 (d.quantum - 2)
  let low := if d.fractionField = 0 ∧ d.exponentField > 1 then 4 * m - 1 else 4 * m - 2
  let num := 4 * m * unit
  (searchGrids tie (m % 2 == 0) (low * unit) num ((4 * m + 2) * unit) den 17
    (decimalExponent num den)).strip 20

/-! ## Examples -/

example : (ofRatio false 1 10).shortest .toEven = ⟨1, -1⟩ := by decide +kernel
example : (ofRatio false 3 10).shortest .toEven = ⟨3, -1⟩ := by decide +kernel
example : (ofNat (twoTo 53 + 2)).shortest .toEven = ⟨9007199254740994, 0⟩ := by decide +kernel
example : (ofRatio false 1 3).shortest .up = ⟨3333333333333333, -16⟩ := by decide +kernel

end Double

end PathQuery
