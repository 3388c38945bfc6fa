import PathQuery.Number.Power

/-!
# Double-precision numbers

A double is its 64 bits. Every operation here is exact arithmetic on natural numbers followed
by one rounding, so nothing depends on a machine's floating-point unit.

**Reading the bits.** A finite double is `± m · 2^q` with `m < 2^53` and `q ≥ -1074`.

**Rounding** (`ofRatio`). A positive quotient is rounded to the nearest multiple of its quantum
`2^q`, a tie going to the even multiple. With `n` that multiple, the bits are
`(q + 1074) · 2^52 + n`: a carry of `n` into `2^53` moves the exponent up by itself, and a result
past the largest exponent is an infinity.
-/

namespace PathQuery

/-- A number in the 64-bit binary interchange format. -/
structure Double where
  bits : UInt64
deriving DecidableEq, Repr

namespace Double

/-! ## Reading the bits -/

/-- The sign bit. -/
def isNegative (d : Double) : Bool := d.bits ≥ 0x8000000000000000

/-- The eleven exponent bits. -/
def exponentField (d : Double) : Nat := d.bits.toNat / twoTo 52 % twoTo 11

/-- The fifty-two fraction bits. -/
def fractionField (d : Double) : Nat := d.bits.toNat % twoTo 52

def isNaN (d : Double) : Bool := d.exponentField == 2047 && d.fractionField != 0

def isInfinite (d : Double) : Bool := d.exponentField == 2047 && d.fractionField == 0

def isFinite (d : Double) : Bool := d.exponentField != 2047

/-- Whether the number is one of the two zeros. -/
def isZero (d : Double) : Bool := d.exponentField == 0 && d.fractionField == 0

/-- The integer `m` of a finite double `± m · 2^q`. -/
def significand (d : Double) : Nat :=
  if d.exponentField = 0 then d.fractionField else twoTo 52 + d.fractionField

/-- The exponent `q` of a finite double `± m · 2^q`. -/
def quantum (d : Double) : Int := (max d.exponentField 1 : Int) - 1075

/-- Equality of numbers: a NaN differs from itself, and the two zeros are equal. -/
def same (a b : Double) : Bool :=
  !a.isNaN && !b.isNaN && (a.bits == b.bits || (a.isZero && b.isZero))

/-! ## Rounding -/

/-- The quotient rounded to the nearest natural number, a tie going to the even one. -/
def roundQuotient (num den : Nat) : Nat :=
  let q := num / den
  let r := num % den
  if 2 * r < den then q else if 2 * r > den then q + 1 else q + q % 2

/-- A natural number times a power of two, as a quotient. -/
def scaled (m : Nat) (q : Int) : Nat × Nat := (m * twoTo q.toNat, twoTo (-q).toNat)

/-- The exponent `e` with `2^e ≤ num / den < 2^(e+1)`, for a positive quotient. -/
def binaryExponent (num den : Nat) : Int :=
  let e : Int := (num.log2 : Int) - den.log2
  if num * twoTo (-e).toNat < den * twoTo e.toNat then e - 1 else e

def signBit (negative : Bool) : Nat := if negative then twoTo 63 else 0

def zero (negative : Bool) : Double := ⟨.ofNat (signBit negative)⟩

def infinity (negative : Bool) : Double := ⟨.ofNat (signBit negative + 2047 * twoTo 52)⟩

/-- The double nearest to `± num / den`, a tie going to the even significand. -/
def ofRatio (negative : Bool) (num den : Nat) : Double :=
  if num = 0 then zero negative else
  let q := max (binaryExponent num den - 52) (-1074)
  let n := roundQuotient (num * twoTo (-q).toNat) (den * twoTo q.toNat)
  let magnitude := (q + 1074).toNat * twoTo 52 + n
  if magnitude ≥ 2047 * twoTo 52 then infinity negative
  else ⟨.ofNat (signBit negative + magnitude)⟩

/-- The double nearest to a natural number. -/
def ofNat (n : Nat) : Double := ofRatio false n 1

/-- The double nearest to an integer. -/
def ofInt (i : Int) : Double := ofRatio (i < 0) i.natAbs 1

/-- The product of two finite doubles. -/
def mul (a b : Double) : Double :=
  let (num, den) := scaled (a.significand * b.significand) (a.quantum + b.quantum)
  ofRatio (a.isNegative != b.isNegative) num den

/-- The quotient of two finite doubles, the second one not zero. -/
def div (a b : Double) : Double :=
  let (num, den) := scaled a.significand (a.quantum - b.quantum)
  ofRatio (a.isNegative != b.isNegative) num (den * b.significand)

/-- The number with its sign turned. -/
def neg (d : Double) : Double := ⟨d.bits ^^^ 0x8000000000000000⟩

/-! ## Examples -/

example : ofNat 1 = ⟨0x3ff0000000000000⟩ := by decide +kernel
example : ofRatio true 1 10 = ⟨0xbfb999999999999a⟩ := by decide +kernel
example : ofNat (twoTo 53 + 1) = ofNat (twoTo 53) := by decide +kernel
example : ofNat (twoTo 53 + 3) = ofNat (twoTo 53 + 4) := by decide +kernel
example : ofRatio false 1 (twoTo 1074) = ⟨1⟩ := by decide +kernel
example : ofRatio false 1 (twoTo 1075) = ⟨0⟩ := by decide +kernel
example : ofNat (twoTo 1024) = infinity false := by decide +kernel
example : ofNat (twoTo 1024 - twoTo 970) = infinity false := by decide +kernel
example : (ofNat (twoTo 1024 - twoTo 970 - 1)).isFinite = true := by decide +kernel
example : div (ofNat 1) (ofNat 10) = ofRatio false 1 10 := by decide +kernel
example : (zero true).same (zero false) = true := by decide +kernel

end Double

end PathQuery
