/-
  Admissibility.Text.Position
  ───────────────────────────
  **Places in a text.**

  A position counts bytes of the UTF-8 form, lines and columns; a span is the stretch from one
  position to a later offset.  A column is one character, a tab as much as a letter, and only a
  line feed starts a line.

  `Position.advanceAll_append`: walking over two texts is walking over one and then the other.
-/

namespace Admissibility.Text

/-! ## §1. Positions. -/

/-- A place between two characters of a text. -/
structure Position where
  /-- Bytes before the place, in UTF-8. -/
  offset : Nat
  /-- Line, counted from 1. -/
  line : Nat
  /-- Column in characters, counted from 1. -/
  column : Nat
  deriving DecidableEq, Repr, Inhabited

namespace Position

/-- The beginning of a text. -/
def start : Position := ⟨0, 1, 1⟩

/-- The place after one more character. -/
def advance (p : Position) (c : Char) : Position :=
  if c = '\n' then ⟨p.offset + c.utf8Size, p.line + 1, 1⟩
  else ⟨p.offset + c.utf8Size, p.line, p.column + 1⟩

/-- The place after some more characters. -/
def advanceAll (p : Position) (cs : List Char) : Position := cs.foldl advance p

@[simp] theorem advance_offset (p : Position) (c : Char) :
    (p.advance c).offset = p.offset + c.utf8Size := by
  unfold advance; split <;> rfl

theorem advanceAll_append (p : Position) (cs ds : List Char) :
    p.advanceAll (cs ++ ds) = (p.advanceAll cs).advanceAll ds :=
  List.foldl_append

end Position

/-- The characters behind the last line feed. -/
def lastLine (cs : List Char) : List Char := (cs.reverse.takeWhile (· ≠ '\n')).reverse

/-! ## §2. Spans. -/

/-- A stretch of a text: two byte offsets, and the line and column of the first. -/
structure Span where
  start : Nat
  stop : Nat
  line : Nat
  column : Nat
  deriving DecidableEq, Repr, Inhabited

namespace Span

/-- The stretch between two positions. -/
def between (p q : Position) : Span := ⟨p.offset, q.offset, p.line, p.column⟩

/-- The empty stretch at a position. -/
def empty (p : Position) : Span := between p p

/-- The stretch from the beginning of one span to the end of another. -/
def upTo (s t : Span) : Span := { s with stop := t.stop }

end Span

end Admissibility.Text
