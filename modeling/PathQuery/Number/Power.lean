/-!
# Powers and widths

Powers of two and of ten, and the integers that fit into a fixed number of bits.
-/

namespace PathQuery

/-- A power of two. -/
def twoTo (k : Nat) : Nat := Nat.pow 2 k

/-- A power of ten. -/
def tenTo (k : Nat) : Nat := Nat.pow 10 k

/-- Whether an integer fits into a number of bits, one of them for the sign. -/
def fitsSigned (bits : Nat) (i : Int) : Bool :=
  -(twoTo (bits - 1) : Int) ≤ i && i < (twoTo (bits - 1) : Int)

example : fitsSigned 8 (-128) = true ∧ fitsSigned 8 128 = false := by decide

end PathQuery
