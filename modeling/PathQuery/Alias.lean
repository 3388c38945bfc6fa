/-!
# Aliases

One supply serves a query and all of its sub-queries: the stem followed by 1, 2, 3, … Nothing is
ever handed out twice.
-/

namespace PathQuery

structure AliasSupply where
  /-- What every alias starts with. -/
  stem : String
  issued : Nat
deriving DecidableEq, Repr

namespace AliasSupply

def ofStem (stem : String) : AliasSupply := ⟨stem, 0⟩

/-- The alias with a given number. -/
def nth (s : AliasSupply) (n : Nat) : String := s.stem ++ toString n

/-- The alias that is handed out next. -/
def next (s : AliasSupply) : String := s.nth (s.issued + 1)

/-- The supply after one alias was handed out. -/
def advance (s : AliasSupply) : AliasSupply := { s with issued := s.issued + 1 }

/-- The next aliases, and the supply after them. -/
def take : Nat → AliasSupply → List String × AliasSupply
  | 0, s => ([], s)
  | n + 1, s =>
    let (rest, after) := take n s.advance
    (s.next :: rest, after)

end AliasSupply

end PathQuery
