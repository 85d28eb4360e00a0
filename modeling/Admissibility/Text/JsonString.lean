/-
  Admissibility.Text.JsonString
  ─────────────────────────────
  **String literals of JSON.**

  A quote and a backslash are escaped with a backslash, five control characters have a letter, and
  the others below U+0020 are written as four hexadecimal digits.  Everything else stands as it is.
-/
import Admissibility.Text.Hex

namespace Admissibility.Text.JsonString

/-- The written form of one character. -/
def escape (c : Char) : String :=
  match c with
  | '"' => "\\\""
  | '\\' => "\\\\"
  | '\x08' => "\\b"
  | '\x0c' => "\\f"
  | '\n' => "\\n"
  | '\r' => "\\r"
  | '\t' => "\\t"
  | c => if c.toNat < 0x20 then "\\u" ++ hex 4 c.toNat else String.singleton c

/-- The literal of a text. -/
def quote (s : String) : String := "\"" ++ String.join (s.toList.map escape) ++ "\""

end Admissibility.Text.JsonString
