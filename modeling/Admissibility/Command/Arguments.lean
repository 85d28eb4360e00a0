/-
  Admissibility.Command.Arguments
  ───────────────────────────────
  **The arguments of the command.**

      [INPUT] [--format text|json] [--max-nodes N] [--max-relations N] [--max-closure-steps N]
      [-v|--verbose]... [-h|--help] [-V|--version]

  An option takes its value from behind an equals sign or from the next argument.  That value is
  looked at only once the next argument, or the end, shows that the option is complete; the
  argument that shows it can itself be refused before.  Behind `--` everything is input.  A limit
  that no argument sets comes from the environment.

  `readCount?_le`: a count that is read fits into 64 bits.
-/
import Admissibility.Limits
import Admissibility.Report

namespace Admissibility.Command

/-! ## §1. Options. -/

/-- What the arguments say. -/
structure Options where
  /-- The file to read; none or `-` for standard input. -/
  input : Option String := none
  format : Report.Format := .text
  limits : Limits := {}
  /-- How often verbosity was asked for, up to 255. -/
  verbosity : Nat := 0
  deriving DecidableEq, Repr, Inhabited

/-- The limits that the environment sets, as texts. -/
structure Environment where
  maxNodes : Option String := none
  maxRelations : Option String := none
  maxClosureSteps : Option String := none
  deriving DecidableEq, Repr, Inhabited

/-- Why arguments do not lead to a run. -/
inductive Refusal where
  /-- An argument that means nothing, or a second input. -/
  | unknownArgument
  /-- An option without its value, or an empty input. -/
  | missingValue
  /-- A format that there is not. -/
  | unknownFormat
  /-- A limit that is no number of 64 bits. -/
  | badCount
  /-- An option given twice. -/
  | repeated
  /-- A value for a flag, which takes none. -/
  | unneededValue
  /-- Help is asked for. -/
  | help
  /-- The version is asked for. -/
  | version
  deriving DecidableEq, Repr, Inhabited

/-- The exit code of a refusal: asking for help or for the version is no mistake. -/
def Refusal.code : Refusal → Nat
  | .help | .version => 0
  | _ => 2

/-! ## §2. Values. -/

/-- Characters without a plus sign in front. -/
def afterPlus : List Char → List Char
  | '+' :: rest => rest
  | all => all

/-- The number that decimal digits write. -/
def decimalValue (digits : List Char) : Nat :=
  digits.foldl (fun n c => 10 * n + (c.toNat - '0'.toNat)) 0

/-- A number in decimal digits, at least one, with or without a plus sign, of at most 64 bits. -/
def readCount? (text : String) : Option Nat :=
  let digits := afterPlus text.toList
  if digits ≠ [] ∧ digits.all Char.isDigit ∧ decimalValue digits ≤ maxCount then
    some (decimalValue digits)
  else none

/-- The format of a name, which is matched exactly. -/
def readFormat? (text : String) : Option Report.Format :=
  if text = Report.Format.text.name then some .text
  else if text = Report.Format.json.name then some .json
  else none

theorem readCount?_le {text : String} {n : Nat} (h : readCount? text = some n) : n ≤ maxCount := by
  simp only [readCount?, Option.ite_none_right_eq_some, Option.some.injEq] at h
  exact h.2 ▸ h.1.2.2

/-- The options that take a value. -/
inductive Setting where
  | format
  | maxNodes
  | maxRelations
  | maxClosureSteps
  deriving DecidableEq, Repr, Inhabited

/-- The option of a long name. -/
def Setting.ofName? : String → Option Setting
  | "format" => some .format
  | "max-nodes" => some .maxNodes
  | "max-relations" => some .maxRelations
  | "max-closure-steps" => some .maxClosureSteps
  | _ => none

/-! ## §3. Reading arguments. -/

/-- What waits to be completed by the next argument or the end. -/
inductive Pending where
  | nothing
  | input (path : String)
  /-- An option with the value that has followed it, if one has. -/
  | setting (setting : Setting) (value : Option String)
  deriving DecidableEq, Repr, Inhabited

/-- What the arguments up to some place say. -/
structure Progress where
  input : Option String := none
  format : Option Report.Format := none
  maxNodes : Option Nat := none
  maxRelations : Option Nat := none
  maxClosureSteps : Option Nat := none
  verbosity : Nat := 0
  pending : Pending := .nothing
  deriving DecidableEq, Repr, Inhabited

namespace Progress

/-- A value read by a reader, for a place that has none yet. -/
def once {α : Type} (present : Option α) (read : String → Option α) (refusal : Refusal)
    (value : String) : Except Refusal (Option α) :=
  if present.isSome then .error .repeated
  else
    match read value with
    | some a => .ok (some a)
    | none => .error refusal

/-- Gives an option its value. -/
def assign (p : Progress) (setting : Setting) (value : String) : Except Refusal Progress :=
  match setting with
  | .format => return { p with format := ← once p.format readFormat? .unknownFormat value }
  | .maxNodes => return { p with maxNodes := ← once p.maxNodes readCount? .badCount value }
  | .maxRelations =>
    return { p with maxRelations := ← once p.maxRelations readCount? .badCount value }
  | .maxClosureSteps =>
    return { p with maxClosureSteps := ← once p.maxClosureSteps readCount? .badCount value }

/-- Completes what waits. -/
def settle (p : Progress) : Except Refusal Progress :=
  let settled := { p with pending := .nothing }
  match p.pending with
  | .nothing => .ok settled
  | .input path => if path = "" then .error .missingValue else .ok { settled with input := path }
  | .setting _ none => .error .missingValue
  | .setting setting (some value) => settled.assign setting value

/-- An input is given, or waits. -/
def hasInput (p : Progress) : Bool :=
  p.input.isSome || match p.pending with
    | .input _ => true
    | _ => false

/-- Takes an argument for the input. -/
def takeInput (p : Progress) (arg : String) : Except Refusal Progress :=
  if p.hasInput then .error .unknownArgument
  else return { ← p.settle with pending := .input arg }

/-- Takes a plain argument: the value that an option waits for, or else the input. -/
def takePlain (p : Progress) (arg : String) : Except Refusal Progress :=
  match p.pending with
  | .setting setting none => .ok { p with pending := .setting setting (some arg) }
  | _ => p.takeInput arg

/-- Asks for more words. -/
def raiseVerbosity (p : Progress) : Except Refusal Progress := do
  let p ← p.settle
  return { p with verbosity := min (p.verbosity + 1) 255 }

/-- Completes what waits, and stops with a request for information. -/
def inform (p : Progress) (request : Refusal) : Except Refusal Progress := do
  let _ ← p.settle
  .error request

/-- Takes a flag without a value, if the name is that of a flag. -/
def takeFlag? (p : Progress) : String → Option (Except Refusal Progress)
  | "verbose" => some p.raiseVerbosity
  | "help" => some (p.inform .help)
  | "version" => some (p.inform .version)
  | _ => none

/-- Takes a long argument: its name, and the value behind an equals sign if there is one. -/
def takeLong (p : Progress) (name : String) (value : Option String) : Except Refusal Progress :=
  match Setting.ofName? name, p.takeFlag? name, value with
  | some setting, _, some value => do (← p.settle).assign setting value
  | some setting, _, none => return { ← p.settle with pending := .setting setting none }
  | none, some _, some _ => .error .unneededValue
  | none, some taken, none => taken
  | none, none, _ => .error .unknownArgument

/-- Takes the letters of a short argument in turn. -/
def takeShort (p : Progress) : List Char → Except Refusal Progress
  | [] => .ok p
  | 'v' :: letters => do (← p.raiseVerbosity).takeShort letters
  | 'h' :: _ => p.inform .help
  | 'V' :: _ => p.inform .version
  | _ => .error .unknownArgument

/-- Takes one argument other than `--`. -/
def take (p : Progress) (arg : String) : Except Refusal Progress :=
  match arg.toList with
  | '-' :: '-' :: rest =>
    let name := rest.takeWhile (· ≠ '=')
    let value := match rest.dropWhile (· ≠ '=') with
      | _ :: value => some (String.ofList value)
      | [] => none
    p.takeLong (String.ofList name) value
  | '-' :: c :: letters => p.takeShort (c :: letters)
  | _ => p.takePlain arg

/-- Takes all arguments.  Those behind `--` are input. -/
def takeAll (p : Progress) : List String → Except Refusal Progress
  | [] => p.settle
  | arg :: args =>
    if arg = "--" then do (← args.foldlM takeInput p).settle
    else do (← p.take arg).takeAll args

end Progress

/-! ## §4. The environment. -/

/-- A limit from an argument, or else from the environment, or else the usual one. -/
def limit (given : Option Nat) (inherited : Option String) (usual : Nat) : Except Refusal Nat :=
  match given, inherited with
  | some n, _ => .ok n
  | none, some text =>
    match readCount? text with
    | some n => .ok n
    | none => .error .badCount
  | none, none => .ok usual

/-- The options that arguments and environment make. -/
def Options.ofArguments (args : List String) (env : Environment) : Except Refusal Options := do
  let p ← ({} : Progress).takeAll args
  let usual : Limits := {}
  return {
    input := p.input
    format := p.format.getD .text
    limits := {
      maxNodes := ← limit p.maxNodes env.maxNodes usual.maxNodes
      maxRelations := ← limit p.maxRelations env.maxRelations usual.maxRelations
      maxClosureSteps :=
        ← limit p.maxClosureSteps env.maxClosureSteps usual.maxClosureSteps }
    verbosity := p.verbosity }

end Admissibility.Command
