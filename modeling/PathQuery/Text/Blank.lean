/-!
# White space

The characters with the Unicode property `White_Space`, and the two ways of cutting them off a
text. The class is larger than the one of `Char.isWhitespace`, which knows ASCII only.

Main statements: `isBlank_of_isWhitespace`, and `dropBlanks_head`, that what remains after the
leading blanks are dropped starts with none.
-/

namespace PathQuery.Text

/-- The white space characters of Unicode. -/
def isBlank (c : Char) : Bool :=
  (0x09 ≤ c.toNat && c.toNat ≤ 0x0D) || c.toNat = 0x20 || c.toNat = 0x85 || c.toNat = 0xA0 ||
    c.toNat = 0x1680 || (0x2000 ≤ c.toNat && c.toNat ≤ 0x200A) || c.toNat = 0x2028 ||
    c.toNat = 0x2029 || c.toNat = 0x202F || c.toNat = 0x205F || c.toNat = 0x3000

/-- The text without its leading white space. -/
def dropBlanks (cs : List Char) : List Char := cs.dropWhile isBlank

/-- The text without its leading and trailing white space. -/
def trim (s : String) : String :=
  String.ofList (dropBlanks (dropBlanks s.toList).reverse).reverse

/-- The letters `A` to `Z` in lower case, all other characters as they are. -/
def lowerAscii (s : String) : String := String.ofList (s.toList.map Char.toLower)

theorem isBlank_of_isWhitespace {c : Char} (h : c.isWhitespace = true) : isBlank c = true := by
  simp only [Char.isWhitespace, Bool.or_eq_true, decide_eq_true_eq] at h
  rcases h with ((rfl | rfl) | rfl) | rfl <;> decide

theorem dropBlanks_head {cs rest : List Char} {c : Char} (h : dropBlanks cs = c :: rest) :
    isBlank c = false := by
  induction cs with
  | nil => cases h
  | cons d ds ih =>
    by_cases hd : isBlank d = true
    · exact ih (by simpa [dropBlanks, List.dropWhile_cons, hd] using h)
    · simp only [dropBlanks, List.dropWhile_cons, hd, Bool.false_eq_true, if_false] at h
      injection h with h₁ _
      subst h₁
      simpa using hd

end PathQuery.Text
