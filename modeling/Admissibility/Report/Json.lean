/-
  Admissibility.Report.Json
  ─────────────────────────
  **The report as a JSON document.**

  Two blanks of indentation a level, one member or element a line, and an empty array as `[]`.  A
  value is laid out as a block of lines; brackets put a block around others.
-/
import Admissibility.Text.JsonString
import Admissibility.Witness

namespace Admissibility.Report

open Admissibility.Text.JsonString (quote)

/-! ## §1. Blocks. -/

/-- The lines of a value. -/
abbrev Block : Type := List String

namespace Block

/-- A comma behind the last line. -/
def withComma : Block → Block
  | [] => []
  | [line] => [line ++ ","]
  | line :: lines => line :: withComma lines

/-- Blocks below each other with commas between them, one level deeper. -/
def inner : List Block → List String
  | [] => []
  | [block] => block.map ("  " ++ ·)
  | block :: blocks => (withComma block).map ("  " ++ ·) ++ inner blocks

/-- Brackets around blocks. -/
def bracket (first last : String) (blocks : List Block) : Block :=
  if blocks.isEmpty then [first ++ last] else first :: inner blocks ++ [last]

/-- A member of an object. -/
def member (key : String) : Block → Block
  | [] => []
  | line :: lines => (quote key ++ ": " ++ line) :: lines

/-- A text. -/
def string (s : String) : Block := [quote s]

/-- A number. -/
def number (n : Nat) : Block := [toString n]

/-- An array of values. -/
def array (values : List Block) : Block := bracket "[" "]" values

/-- An object of members. -/
def object (members : List Block) : Block := bracket "\x7b" "\x7d" members

end Block

/-! ## §2. The report. -/

/-- The object of a fact. -/
def factBlock (f : Fact) : Block :=
  .object
    [.member "kind" (.string f.kind.keyword),
     .member "endpoints" (.array (f.endpoints.map .string))]

/-- The members that an admissible witness has and an inadmissible one has not, or the other way
around. -/
def evidenceMembers : Witness → List Block
  | .admissible checked =>
    [.member "checked" (.object
      [.member "boundaries" (.number checked.boundaries),
       .member "inversions" (.number checked.inversions)])]
  | .inadmissible violation => [.member "class" (.string violation.constraint.name)]

/-- The object of a report. -/
def jsonBlock (w : Witness) : Block :=
  .object
    ([.member "verdict" (.string w.verdict.name)] ++ evidenceMembers w ++
     [.member "relations" (.array ((w.violation?.map Violation.facts).getD [] |>.map factBlock)),
      .member "labels" (.array ((w.violation?.map Violation.labels).getD [] |>.map .string))])

/-- The report as a JSON document, without a line feed at the end. -/
def json (w : Witness) : String := "\n".intercalate (jsonBlock w)

end Admissibility.Report
