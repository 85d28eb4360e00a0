/-
  Admissibility.Command.Usage
  ───────────────────────────
  **What the command says about itself and about arguments that it refuses.**
-/
import Admissibility.Command.Arguments

namespace Admissibility.Command

/-- The line that names the program and its version. -/
def versionLine : String := "admit 0.1.0\n"

/-- The usage of the command, line by line. -/
def usageLines : List String :=
  ["Checks whether a structure description is admissible",
   "",
   "Usage: admit [OPTIONS] [INPUT]",
   "",
   "Arguments:",
   "  [INPUT]  The description to check; standard input if it is absent or -",
   "",
   "Options:",
   "      --format <FORMAT>        The format of the report: text or json [default: text]",
   "      --max-nodes <N>          [env: ADMIT_MAX_NODES] [default: 1000000]",
   "      --max-relations <N>      [env: ADMIT_MAX_RELATIONS] [default: 4000000]",
   "      --max-closure-steps <N>  [env: ADMIT_MAX_CLOSURE_STEPS] [default: 64000000]",
   "  -v, --verbose...             Say more about the run",
   "  -h, --help                   Print help",
   "  -V, --version                Print version"]

/-- The usage of the command. -/
def usage : String := String.join (usageLines.map (· ++ "\n"))

/-- The wording of a refusal. -/
def Refusal.message : Refusal → String
  | .unknownArgument => "unexpected argument"
  | .missingValue => "an argument has no value"
  | .unknownFormat => "the format is neither text nor json"
  | .badCount => "a limit is not a number of 64 bits"
  | .repeated => "an option is given twice"
  | .unneededValue => "a flag is given a value"
  | .help => "help is asked for"
  | .version => "the version is asked for"

end Admissibility.Command
