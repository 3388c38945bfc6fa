import PathQuery.Text.Hex

/-!
# Universally unique identifiers

An identifier is 128 bits. It is written with lower-case digits in groups of 8, 4, 4, 4 and 12,
and read with letters of either case in four forms: the groups, the same in braces, the same after
`urn:uuid:`, and thirty-two digits without groups.
-/

namespace PathQuery

/-- A universally unique identifier. -/
structure Uuid where
  value : BitVec 128
deriving DecidableEq, Repr

namespace Uuid

open Text (hexPadded ofHexDigits?)

/-- The digits in groups of 8, 4, 4, 4 and 12. -/
def write (u : Uuid) : String :=
  let ds := hexPadded 32 u.value.toNat
  String.ofList <| ds.take 8 ++ '-' :: (ds.drop 8).take 4 ++ '-' :: (ds.drop 12).take 4 ++
    '-' :: (ds.drop 16).take 4 ++ '-' :: ds.drop 20

/-- The identifier with thirty-two digits. -/
def ofDigits? (cs : List Char) : Option Uuid :=
  if cs.length = 32 then (ofHexDigits? cs).map fun n => ⟨.ofNat 128 n⟩ else none

/-- The identifier with digits in groups. -/
def ofGroups? (cs : List Char) : Option Uuid :=
  if cs.length = 36 ∧ cs[8]? = some '-' ∧ cs[13]? = some '-' ∧ cs[18]? = some '-' ∧
      cs[23]? = some '-' then
    ofDigits? (cs.take 8 ++ (cs.drop 9).take 4 ++ (cs.drop 14).take 4 ++
      (cs.drop 19).take 4 ++ cs.drop 24)
  else none

/-- Reads an identifier in any of its four forms. -/
def read? (s : String) : Option Uuid :=
  let cs := s.toList
  if cs.length = 32 then ofDigits? cs
  else if cs.length = 36 then ofGroups? cs
  else if cs.length = 38 then
    if cs.head? = some '\x7b' ∧ cs.getLast? = some '\x7d' then
      ofGroups? ((cs.drop 1).take 36)
    else none
  else if cs.length = 45 ∧ (cs.take 9).map Char.toLower = "urn:uuid:".toList then
    ofGroups? (cs.drop 9)
  else none

example : (read? "67E55044-10B1-426F-9247-BB680E5FE0C8").map write =
    some "67e55044-10b1-426f-9247-bb680e5fe0c8" := by decide +kernel
example : read? "URN:uuid:67e55044-10b1-426f-9247-bb680e5fe0c8" =
    read? "67e5504410b1426f9247bb680e5fe0c8" := by decide +kernel
example : read? "67e55044-10b1-426f-9247-bb680e5fe0c" = none := by decide +kernel

end Uuid

end PathQuery
