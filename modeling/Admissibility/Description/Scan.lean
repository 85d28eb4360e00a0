/-
  Admissibility.Description.Scan
  ──────────────────────────────
  **The tokens of a text.**

  One pass over the characters, each handled once: in a gap, in a comment or in a word.  A comment
  starts with `//` or `--` and goes on to the end of the line.  A word goes on as long as it can; a
  hyphen belongs to it only with a word character right after it.

  `scan_cons`: what one character adds to the scan of the rest.
-/
import Admissibility.Description.Fault
import Admissibility.Text.Blank

namespace Admissibility.Description

open Admissibility.Text (Position Span isBlank)

/-! ## §1. The tokens of a text. -/

/-- Tokens in the order of the text, and the empty span at its end. -/
structure TokenStream where
  tokens : List Token
  stop : Span
  deriving DecidableEq, Repr, Inhabited

/-! ## §2. One character. -/

/-- What the character to come is part of. -/
inductive Mode where
  /-- White space, a comment to open, or the first character of a token. -/
  | gap
  | comment
  /-- A word, with the place where it starts and the characters so far, the last one first. -/
  | word (start : Position) (letters : List Char)
  deriving DecidableEq, Repr, Inhabited

/-- Two slashes or two hyphens open a comment. -/
def opensComment (c : Char) (rest : List Char) : Bool :=
  (c == '/' || c == '-') && rest.head? == some c

/-- A word goes on with a word character, or with a hyphen that has one behind it. -/
def wordGoesOn : List Char → Bool
  | '-' :: c :: _ => isWordChar c
  | c :: _ => isWordChar c
  | [] => false

/-- A character of a word is read: the word goes on, or it is complete and makes a token. -/
def letter (start : Position) (letters : List Char) (stop : Position) (rest : List Char) :
    Except Fault (Mode × Option Token) :=
  if wordGoesOn rest then .ok (.word start letters, none)
  else
    let word := String.ofList letters.reverse
    match Token.Kind.ofWord? word with
    | some kind => .ok (.gap, some ⟨kind, .between start stop⟩)
    | none => .error ⟨.proceduralWord word, .between start stop⟩

/-- Reads one character, with the characters after it in view. -/
def step (mode : Mode) (p : Position) (c : Char) (rest : List Char) :
    Except Fault (Mode × Option Token) :=
  match mode with
  | .comment => .ok (if c = '\n' then .gap else .comment, none)
  | .word start letters => letter start (c :: letters) (p.advance c) rest
  | .gap =>
    if isBlank c then .ok (.gap, none)
    else if opensComment c rest then .ok (.comment, none)
    else if startsWord c then letter p [c] (p.advance c) rest
    else
      match symbol? c with
      | some kind => .ok (.gap, some ⟨kind, .between p (p.advance c)⟩)
      | none => .error ⟨.unexpectedCharacter c, .between p (p.advance c)⟩

/-! ## §3. All characters. -/

/-- Reads characters from a place on, with the tokens so far, the last one first. -/
def scan (mode : Mode) (p : Position) (done : List Token) :
    List Char → Except Fault TokenStream
  | [] => .ok ⟨done.reverse, .empty p⟩
  | c :: rest =>
    match step mode p c rest with
    | .ok (mode, token?) => scan mode (p.advance c) (token?.toList ++ done) rest
    | .error fault => .error fault

/-- The tokens of a text. -/
def tokenize (text : String) : Except Fault TokenStream := scan .gap .start [] text.toList

theorem scan_cons (mode : Mode) (p : Position) (done : List Token) (c : Char) (rest : List Char) :
    scan mode p done (c :: rest) =
      (step mode p c rest).bind fun (mode, token?) =>
        scan mode (p.advance c) (token?.toList ++ done) rest := by
  rw [scan]
  cases step mode p c rest <;> rfl

end Admissibility.Description
