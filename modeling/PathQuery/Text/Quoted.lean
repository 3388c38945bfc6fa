import PathQuery.Text.Glyph
import PathQuery.Text.Hex

/-!
# Quoted text

A text between double quotes, for diagnostics: the quote and the backslash are escaped, tab,
line feed, carriage return and NUL have short escapes, and every other character that would not
show is written by its code point in braces.
-/

namespace PathQuery.Text

/-- One character inside quotes. -/
def quotedChar (c : Char) : List Char :=
  match c with
  | '"' => ['\\', '"']
  | '\\' => ['\\', '\\']
  | '\t' => ['\\', 't']
  | '\n' => ['\\', 'n']
  | '\r' => ['\\', 'r']
  | '\x00' => ['\\', '0']
  | _ => if hasGlyph c then [c] else ['\\', 'u', '\x7b'] ++ hexDigits c.toNat ++ ['\x7d']

/-- The text between double quotes. -/
def quoted (s : String) : String :=
  String.ofList ('"' :: s.toList.flatMap quotedChar ++ ['"'])

end PathQuery.Text
