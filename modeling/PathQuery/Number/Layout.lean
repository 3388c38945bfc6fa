import PathQuery.Number.Shortest

/-!
# Written forms of a double

The digits of a written double are always the shortest that read back. Formats differ in four
decisions, which are the fields of `Layout`: the direction of a tie, the range of leading
exponents written positionally, whether an integral number keeps `.0`, and whether a positive
exponent has a sign.
-/

namespace PathQuery

/-- The decisions of one format for writing doubles. -/
structure Layout where
  /-- Which of two equally near shortest decimals is written. -/
  tie : Tie
  /-- The least and the greatest leading exponent written positionally; without a range, all. -/
  positional : Option (Int × Int)
  /-- Whether an integral number written positionally ends in `.0`. -/
  keepsPoint : Bool
  /-- Whether an exponent that is not negative has a plus sign. -/
  signsExponent : Bool

namespace Decimal

/-- The number written without an exponent. -/
def positionalText (keepsPoint : Bool) (d : Decimal) : List Char :=
  let ds := d.digits
  if 0 ≤ d.exponent then
    ds ++ List.replicate d.exponent.toNat '0' ++ (if keepsPoint then ['.', '0'] else [])
  else if 0 ≤ d.leading then
    let whole := d.leading.toNat + 1
    ds.take whole ++ '.' :: ds.drop whole
  else
    '0' :: '.' :: List.replicate (-d.leading - 1).toNat '0' ++ ds

/-- The number written with one digit before the point and an exponent. -/
def scientificText (signsExponent : Bool) (d : Decimal) : List Char :=
  let mantissa := match d.digits with
    | [] => []
    | [c] => [c]
    | c :: cs => c :: '.' :: cs
  let sign := if d.leading < 0 then ['-'] else if signsExponent then ['+'] else []
  mantissa ++ 'e' :: sign ++ (Nat.repr d.leading.natAbs).toList

end Decimal

namespace Layout

/-- A double under the decisions of a format. -/
def write (f : Layout) (x : Double) : String :=
  if x.isNaN then "NaN" else
  let sign := if x.isNegative then ['-'] else []
  if x.isInfinite then String.ofList (sign ++ ['i', 'n', 'f']) else
  let d := x.shortest f.tie
  let isPositional := x.isZero || match f.positional with
    | none => true
    | some (least, greatest) => least ≤ d.leading && d.leading ≤ greatest
  String.ofList <| sign ++
    if isPositional then d.positionalText f.keepsPoint else d.scientificText f.signsExponent

/-- For readers of a value: never an exponent, and no point on an integral number. -/
def plain : Layout := ⟨.up, none, false, false⟩

/-- For diagnostics: positional from `1e-4` up to below `1e16`, and a point on every number. -/
def diagnostic : Layout := ⟨.up, some (-4, 15), true, false⟩

/-- For JSON texts: positional from `1e-5` up to below `1e16`, and a sign on every exponent. -/
def json : Layout := ⟨.toEven, some (-5, 15), true, true⟩

end Layout

/-! ## Examples -/

example : Layout.plain.write (Double.ofInt (-1500)) = "-1500" := by decide +kernel
example : Layout.plain.write (Double.ofRatio false 1 1000000) = "0.000001" := by decide +kernel
example : Layout.diagnostic.write (Double.ofNat (tenTo 16)) = "1e16" := by decide +kernel
example : Layout.diagnostic.write (Double.ofRatio false 15 1000000) = "1.5e-5" := by
  decide +kernel
example : Layout.json.write (Double.ofNat (15 * tenTo 15)) = "1.5e+16" := by decide +kernel
example : Layout.json.write (Double.zero true) = "-0.0" := by decide +kernel

end PathQuery
