/-
  Admissibility.Text.Quoted
  ─────────────────────────
  **Texts in quotes, as messages show them.**

  A quote and a backslash are escaped with a backslash, four characters have a letter, and the
  others that do not show by themselves are written as their number in hexadecimal digits.
-/
import Admissibility.Text.Hex
import Admissibility.Text.Invisible

namespace Admissibility.Text.Quoted

/-- The written form of one character. -/
def escape (c : Char) : String :=
  match c with
  | '"' => "\\\""
  | '\\' => "\\\\"
  | '\n' => "\\n"
  | '\r' => "\\r"
  | '\t' => "\\t"
  | '\x00' => "\\0"
  | c =>
    if isInvisible c then "\\u\x7b" ++ hex 1 c.toNat ++ "\x7d" else String.singleton c

/-- A text in quotes. -/
def quote (s : String) : String := "\"" ++ String.join (s.toList.map escape) ++ "\""

/-- Texts in quotes, in brackets. -/
def quoteList (ss : List String) : String := "[" ++ ", ".intercalate (ss.map quote) ++ "]"

end Admissibility.Text.Quoted
