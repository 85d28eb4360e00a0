/-
  Admissibility.Description.Token
  ───────────────────────────────
  **The words and symbols of a description.**

  A word is a keyword, a label, or one of the procedural words, which no description may use: it
  states what there is and not what happens.  Keywords and procedural words are recognized in any
  case of their letters; a label keeps the case in which it is written.
-/
import Admissibility.Relation
import Admissibility.Text.Position

namespace Admissibility.Description

/-! ## §1. Tokens. -/

/-- The sorts of tokens. -/
inductive Token.Kind where
  | node
  /-- The keyword of a relation kind. -/
  | relation (kind : Relation.Kind)
  | label (name : String)
  | openParen
  | closeParen
  | openBrace
  | closeBrace
  | comma
  | semicolon
  deriving DecidableEq, Repr, Inhabited

/-- A token and the stretch of text that it covers. -/
structure Token where
  kind : Token.Kind
  span : Text.Span
  deriving DecidableEq, Repr, Inhabited

/-- What messages call a token. -/
def Token.Kind.name : Token.Kind → String
  | .node => "node"
  | .relation kind => kind.keyword
  | .label _ => "label"
  | .openParen => "("
  | .closeParen => ")"
  | .openBrace => "\x7b"
  | .closeBrace => "\x7d"
  | .comma => ","
  | .semicolon => ";"

/-- The relation kind that a keyword introduces. -/
def Token.Kind.relation? : Token.Kind → Option Relation.Kind
  | .relation kind => some kind
  | _ => none

/-- What messages call the end of a description. -/
def endOfInput : String := "end of input"

/-! ## §2. Characters and words. -/

/-- The token that a symbol stands for. -/
def symbol? : Char → Option Token.Kind
  | '(' => some .openParen
  | ')' => some .closeParen
  | '{' => some .openBrace
  | '}' => some .closeBrace
  | ',' => some .comma
  | ';' => some .semicolon
  | _ => none

/-- A character with which a word begins: an ASCII letter or an underscore. -/
def startsWord (c : Char) : Bool := c.isAlpha || c == '_'

/-- A character of a word other than a hyphen: an ASCII letter, a digit or an underscore. -/
def isWordChar (c : Char) : Bool := c.isAlphanum || c == '_'

/-- Words that describe a process, in lower case. -/
def proceduralWords : List String :=
  ["for", "while", "loop", "repeat", "iterate", "time", "step", "tick", "clock", "evolve",
   "simulate", "optimize", "minimize", "maximize", "search", "solve"]

/-- The token that a keyword stands for, in lower case. -/
def keyword? : String → Option Token.Kind
  | "node" => some .node
  | "member-of" => some (.relation .memberOf)
  | "bounds" => some (.relation .bounds)
  | "inverts" => some (.relation .inverts)
  | _ => none

/-- The token that a word stands for; nothing for a procedural word. -/
def Token.Kind.ofWord? (word : String) : Option Token.Kind :=
  if proceduralWords.contains word.toLower then none
  else some ((keyword? word.toLower).getD (.label word))

end Admissibility.Description
