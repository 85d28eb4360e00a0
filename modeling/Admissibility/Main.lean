/-
  Admissibility.Main
  ──────────────────
  **The command line.**

  Reads the arguments, the environment and the description, and hands them to `Command.respond`.
  Nothing is decided here.
-/
import Admissibility.Command
import Admissibility.Command.Usage

namespace Admissibility.Command

/-- The reason that an error of the system gives. -/
def reasonOf : IO.Error → String
  | .noFileOrDirectory .. => "No such file or directory (os error 2)"
  | .permissionDenied .. => "Permission denied (os error 13)"
  | e => toString e

/-- The limits in the environment. -/
def readEnvironment : IO Environment := do
  return {
    maxNodes := ← IO.getEnv "ADMIT_MAX_NODES"
    maxRelations := ← IO.getEnv "ADMIT_MAX_RELATIONS"
    maxClosureSteps := ← IO.getEnv "ADMIT_MAX_CLOSURE_STEPS" }

/-- All that is left of a stream. -/
partial def drain (stream : IO.FS.Stream) (done : ByteArray) : IO ByteArray := do
  let chunk ← stream.read 65536
  if chunk.isEmpty then return done else drain stream (done ++ chunk)

/-- The bytes of a source, or the reason why there are none. -/
def readSource (source : Source) : IO (Except String ByteArray) := do
  try
    match source with
    | .stdin => return .ok (← drain (← IO.getStdin) .empty)
    | .file path => return .ok (← IO.FS.readBinFile path)
  catch e => return .error (reasonOf e)

/-- Writes a text to standard output. -/
def write (text : String) : IO Delivery := do
  let stdout ← IO.getStdout
  try stdout.putStr text
  catch e => return .notWritten (reasonOf e)
  try stdout.flush
  catch e => return .notFlushed (reasonOf e)
  return .delivered

/-- Runs the command with its options. -/
def runWith (o : Options) : IO UInt32 := do
  let found ← readSource o.source
  let response := respond o found .delivered
  let delivery ← if response.stdout.isEmpty then pure .delivered else write response.stdout
  let response := if delivery = .delivered then response else respond o found delivery
  IO.eprint response.stderr
  return response.exit.code.toUInt32

/-- Tells why there is no run. -/
def decline (r : Refusal) : IO UInt32 := do
  match r with
  | .help => IO.print usage
  | .version => IO.print versionLine
  | r => IO.eprint ("error: " ++ r.message ++ "\n\n" ++ usage)
  return r.code.toUInt32

end Admissibility.Command

/-- The command. -/
def main (args : List String) : IO UInt32 := do
  match Admissibility.Command.Options.ofArguments args
      (← Admissibility.Command.readEnvironment) with
  | .ok options => Admissibility.Command.runWith options
  | .error refusal => Admissibility.Command.decline refusal
