import PathQuery.Json.Basic
import PathQuery.Json.Form

/-!
# The value of a written number

A number without point and exponent is exact when it fits into 64 bits, signed or not, except
that `-0` is the double `-0.0`. Every other number is a double, obtained as follows.

The leading digits are collected for as long as they fit into an unsigned 64-bit integer. Digits
before the point that no longer fit only raise the exponent, those after the point are dropped.
The collected digits are rounded to a double and then multiplied or divided once by the double
nearest to the power of ten, so the result may differ in its last place from the double nearest
to the written number. A number that is too large is refused.
-/

namespace PathQuery.Json.Lexeme

/-- The digits collected into a 64-bit number, and the digits that no longer fit. -/
def collect : Nat → List Nat → Nat × List Nat
  | n, [] => (n, [])
  | n, d :: ds => if 10 * n + d < twoTo 64 then collect (10 * n + d) ds else (n, d :: ds)

/-- The double nearest to a power of ten. -/
def powerOfTen (k : Nat) : Double := Double.ofNat (tenTo k)

/-- A double times a power of ten, by one multiplication or division. An exponent below the range
of doubles is approached by divisions by `1e308`; two of them make every number zero. -/
def scaleTen : Nat → Double → Int → Option Double
  | 0, _, _ => some (.zero false)
  | fuel + 1, f, exponent =>
    if exponent.natAbs ≤ 308 then
      if 0 ≤ exponent then
        let product := f.mul (powerOfTen exponent.natAbs)
        if product.isInfinite then none else some product
      else some (f.div (powerOfTen exponent.natAbs))
    else if f.isZero then some f
    else if 0 ≤ exponent then none
    else scaleTen fuel (f.div (powerOfTen 308)) (exponent + 308)

/-- The number that a list of digits stands for. -/
def ofDigits (ds : List Nat) : Nat := ds.foldl (fun n d => 10 * n + d) 0

/-- The double of a number with point, exponent or too many digits. -/
def toDouble? (n : Lexeme) : Option Double := do
  let (whole, excess) := collect 0 n.whole
  let (significand, dropped) := collect whole n.fraction
  let shift : Int := excess.length - (n.fraction.length - dropped.length : Nat)
  let magnitude ← match n.exponent with
    | none => scaleTen 4 (.ofNat significand) shift
    | some (negative, ds) =>
      let e := ofDigits ds
      if e < twoTo 31 then
        scaleTen 4 (.ofNat significand) (if negative then shift - e else shift + e)
      else if significand = 0 ∨ negative then some (.zero false)
      else none
  return if n.negative then magnitude.neg else magnitude

/-- The value of a written number, unless it is too large. -/
def toJson? (n : Lexeme) : Option Json :=
  let (whole, excess) := collect 0 n.whole
  if n.fraction.isEmpty ∧ n.exponent.isNone ∧ excess.isEmpty then
    if !n.negative then some (.int whole)
    else if whole = 0 then some (.double (.zero true))
    else if whole ≤ twoTo 63 then some (.int (-(whole : Int)))
    else some (.double (Double.ofNat whole).neg)
  else n.toDouble?.map .double

end PathQuery.Json.Lexeme
