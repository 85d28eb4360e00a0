/-
  Admissibility.Text.Hex
  ──────────────────────
  **Numbers in lower-case hexadecimal digits, padded with zeros to a width.**
-/

namespace Admissibility.Text

/-- The hexadecimal digits of a number, and zeros in front of them up to a width. -/
def hex (width n : Nat) : String :=
  let digits := Nat.toDigits 16 n
  String.ofList (List.replicate (width - digits.length) '0' ++ digits)

end Admissibility.Text
