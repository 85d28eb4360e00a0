/-
  Admissibility.Description.Fault
  ───────────────────────────────
  **Why a description is refused, and how it is told.**

  A fault is a cause with the stretch of text to blame.  Its diagnostic has the wording: a
  syntactic one says that the text does not follow the grammar, a grammatical one that it does and
  still describes no structure.
-/
import Admissibility.Description.Token
import Admissibility.Structure
import Admissibility.Text.Hex

namespace Admissibility.Description

open Admissibility.Text (Span)

/-! ## §1. Diagnostics. -/

/-- Which of the two gates refuses a description. -/
inductive Gate where
  /-- The text does not split into tokens, or they come in the wrong order. -/
  | syntactic
  /-- The tokens are in order but describe no structure. -/
  | grammatical
  deriving DecidableEq, Repr, Inhabited

/-- The name of a gate in messages. -/
def Gate.name : Gate → String
  | .syntactic => "syntax error"
  | .grammatical => "grammar violation"

/-- A refusal in words. -/
structure Diagnostic where
  gate : Gate
  text : String
  span : Span
  /-- What could have stood there instead. -/
  expected : Option (List String) := none
  /-- What stands there. -/
  found : Option String := none
  deriving DecidableEq, Repr, Inhabited

namespace Diagnostic

/-- Something stands where something else is expected. -/
def unexpectedToken (span : Span) (expected found : String) : Diagnostic where
  gate := .syntactic
  text := s!"expected {expected}, found {found}"
  span := span
  expected := some [expected]
  found := some found

/-- The text ends where something is expected. -/
def unexpectedEnd (span : Span) (expected : String) : Diagnostic where
  gate := .syntactic
  text := s!"unexpected end of input, expected {expected}"
  span := span
  expected := some [expected]
  found := some endOfInput

/-- The wording with the gate and the place in front. -/
def message (d : Diagnostic) : String :=
  s!"{d.gate.name} at line {d.span.line}, column {d.span.column}: {d.text}"

end Diagnostic

/-! ## §2. Faults. -/

/-- What the grammar expects at a place. -/
inductive Expected where
  /-- The beginning of an item. -/
  | item
  | label
  | openParen
  | closeParen
  | closeBrace
  deriving DecidableEq, Repr, Inhabited

/-- What messages call the thing that is expected. -/
def Expected.name : Expected → String
  | .item => "node, member-of, bounds, or inverts"
  | .label => "label"
  | .openParen => "("
  | .closeParen => ")"
  | .closeBrace => "\x7d"

/-- The cause of a fault. -/
inductive Cause where
  /-- A byte that is no part of UTF-8 text. -/
  | invalidByte (offset : Nat) (byte : UInt8)
  /-- A character that begins no token. -/
  | unexpectedCharacter (c : Char)
  | proceduralWord (word : String)
  | unexpectedToken (expected : Expected) (found : Token.Kind)
  | unexpectedEnd (expected : Expected)
  /-- A relation of a kind that there is not. -/
  | unknownKind (name : String)
  /-- Braces without labels between them. -/
  | emptySet
  /-- Braces anywhere but around the bounded side of `bounds`. -/
  | misplacedSet
  | duplicateNode (label : String)
  | undeclaredNode (label : String)
  /-- A node or relation that a structure refuses. -/
  | refused (refusal : Structure.Refusal)
  deriving DecidableEq, Repr

/-- A cause and the stretch of text to blame. -/
structure Fault where
  cause : Cause
  span : Span
  deriving DecidableEq, Repr

namespace Fault

/-- The fault in words. -/
def diagnostic (f : Fault) : Diagnostic :=
  match f.cause with
  | .invalidByte offset byte =>
    { gate := .syntactic, text := s!"invalid UTF-8 at byte {offset}", span := f.span,
      found := some ("0x" ++ Text.hex 2 byte.toNat) }
  | .unexpectedCharacter c =>
    { gate := .syntactic, text := s!"unexpected character '{c}'", span := f.span,
      found := some (String.singleton c) }
  | .proceduralWord word =>
    { gate := .grammatical,
      text := s!"procedural word '{word}' is not permitted in a structure description",
      span := f.span, found := some word }
  | .unexpectedToken expected found => .unexpectedToken f.span expected.name found.name
  | .unexpectedEnd expected => .unexpectedEnd f.span expected.name
  | .unknownKind name =>
    { gate := .grammatical,
      text := s!"unknown relation kind '{name}', expected member-of, bounds or inverts",
      span := f.span, found := some name }
  | .emptySet =>
    { gate := .grammatical, text := "bounded set must not be empty", span := f.span }
  | .misplacedSet =>
    { gate := .grammatical, text := "a node set is only allowed as the bounded side of bounds",
      span := f.span }
  | .duplicateNode label =>
    { gate := .grammatical, text := s!"duplicate node declaration '{label}'", span := f.span,
      found := some label }
  | .undeclaredNode label =>
    { gate := .grammatical, text := s!"undeclared node '{label}'", span := f.span,
      found := some label }
  | .refused refusal =>
    { gate := .grammatical, text := refusal.message, span := f.span }

/-- The fault in one line. -/
def message (f : Fault) : String := f.diagnostic.message

end Fault

end Admissibility.Description
