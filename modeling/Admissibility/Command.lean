/-
  Admissibility.Command
  ─────────────────────
  **One run of the command.**

  The command reads a description, validates it and writes the report; its exit code carries the
  verdict.  Reading and writing are given as their outcomes, so that a run is a function: of the
  options, of what reading the input came to, and of how writing the report goes.
-/
import Admissibility.Command.Arguments
import Admissibility.Description
import Admissibility.Text.Path
import Admissibility.Validation

namespace Admissibility.Command

open Admissibility.Text (Path)

/-! ## §1. Input. -/

/-- Where the description comes from. -/
inductive Source where
  | stdin
  | file (path : String)
  deriving DecidableEq, Repr, Inhabited

/-- The source that options name: without an input, or with the path `-`, standard input. -/
def Options.source (o : Options) : Source :=
  match o.input with
  | none => .stdin
  | some path => if Path.ofText path = Path.ofText "-" then .stdin else .file path

/-- What messages about a description call its source. -/
def Source.name : Source → String
  | .stdin => "<stdin>"
  | .file path => path

/-- What messages about reading call the source. -/
def Source.readName : Source → String
  | .stdin => "stdin"
  | .file path => path

/-- What reading a source comes to, given what is found there. -/
def Source.reading (s : Source) (found : Except String ByteArray) : Except String ByteArray :=
  match s with
  | .stdin => found
  | .file path => Path.reading path found

/-! ## §2. Outcomes. -/

/-- The ways in which a run ends. -/
inductive Exit where
  | admissible
  | inadmissible
  /-- The input describes no structure. -/
  | badDescription
  /-- The input cannot be read. -/
  | noInput
  /-- A limit is passed. -/
  | exhausted
  /-- There is no report to write. -/
  | notRendered
  /-- The report cannot be written. -/
  | notWritten
  deriving DecidableEq, Repr, Inhabited

/-- The exit code of a run. -/
def Exit.code : Exit → Nat
  | .admissible => 0
  | .inadmissible => 1
  | .badDescription => 65
  | .noInput => 66
  | .exhausted | .notRendered => 70
  | .notWritten => 74

/-- The way in which a run with a verdict ends. -/
def Exit.ofVerdict : Verdict → Exit
  | .admissible => .admissible
  | .inadmissible => .inadmissible

/-- How writing the report goes. -/
inductive Delivery where
  | delivered
  /-- Nothing is written, for a reason. -/
  | notWritten (reason : String)
  /-- The report is written but not flushed, for a reason. -/
  | notFlushed (reason : String)
  deriving DecidableEq, Repr, Inhabited

/-- How a run ends and what it writes. -/
structure Response where
  exit : Exit
  stdout : String := ""
  stderr : String := ""
  deriving DecidableEq, Repr, Inhabited

/-! ## §3. The run. -/

/-- A message that takes a line. -/
def line (subject message : String) : String := subject ++ ": " ++ message ++ "\n"

/-- Writes a report, and ends as the verdict says if that succeeds. -/
def deliver (report : String) (verdict : Verdict) : Delivery → Response
  | .delivered => { exit := .ofVerdict verdict, stdout := report }
  | .notWritten reason =>
    { exit := .notWritten, stderr := line "error" ("failed to write report: " ++ reason) }
  | .notFlushed reason =>
    { exit := .notWritten, stdout := report,
      stderr := line "error" ("failed to write report: " ++ reason) }

/-- Validates the description in some bytes and writes the report. -/
def check (o : Options) (bytes : ByteArray) (delivery : Delivery) : Response :=
  match Structure.ofBytes bytes with
  | .error fault => { exit := .badDescription, stderr := line o.source.name fault.message }
  | .ok s =>
    match s.validate o.limits with
    | .error exhausted => { exit := .exhausted, stderr := line o.source.name exhausted.message }
    | .ok witness =>
      match Report.render witness o.format with
      | .error fault => { exit := .notRendered, stderr := line "error" fault.message }
      | .ok report => deliver report witness.verdict delivery

/-- A run of the command, given the bytes that are found at the source or the reason why there
are none. -/
def respond (o : Options) (found : Except String ByteArray) (delivery : Delivery) : Response :=
  match o.source.reading found with
  | .error reason =>
    { exit := .noInput,
      stderr := line "error" ("failed to read " ++ o.source.readName ++ ": " ++ reason) }
  | .ok bytes => check o bytes delivery

end Admissibility.Command
