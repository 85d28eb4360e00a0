/-
  Admissibility.Text.Lines
  ────────────────────────
  **The lines of a text.**

  A line ends with a line feed, or with a carriage return and a line feed.  Neither is part of the
  line.  The last line need not end so; a carriage return at the very end of the text is then a
  character of it.  A text that ends with a line feed has no empty line behind that.

  `lines_terminated`: a line with its line feed is the first line of what it begins.
-/

namespace Admissibility.Text

/-- The lines of a text, without their ends. -/
def lines : List Char → List (List Char)
  | [] => []
  | '\n' :: rest => [] :: lines rest
  | '\r' :: '\n' :: rest => [] :: lines rest
  | c :: rest =>
    match lines rest with
    | line :: others => (c :: line) :: others
    | [] => [[c]]

theorem lines_terminated {line : List Char} (feed : '\n' ∉ line) (ret : '\r' ∉ line)
    (rest : List Char) : lines (line ++ '\n' :: rest) = line :: lines rest := by
  induction line with
  | nil => simp [lines]
  | cons c cs ih =>
    simp only [List.mem_cons, not_or] at feed ret
    have tail := ih feed.2 ret.2
    rw [List.cons_append, lines, tail]
    · exact fun h => feed.1 h.symm
    · exact fun _ h => absurd h.symm ret.1

end Admissibility.Text
