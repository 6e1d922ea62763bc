import StackScript.CommandLine.Run

/-!
# The command line program

Reads arguments, environment and input, and carries out what the run comes to. Nesting is bounded by
the limit of the settings alone: calls may be nested as deep as a text or a document asks for, and
no run ends because a stack of calls is full.
-/

namespace StackScript

/-- A short account of the arguments. -/
def usage : String :=
  "Usage: cfnscript [--version] [--verbose] COMMAND\n" ++
    "  compile [INPUT] [OUTPUT] [--json] [--format yaml|json]\n" ++
    "  decompile [INPUT] [OUTPUT]"

/-- The fault behind an error of the file system. -/
def fileFault : IO.Error → FileFault
  | .noFileOrDirectory .. => .notFound
  | .inappropriateType .. => .isDirectory
  | error => .other (toString error)

/-- The result of an action on a file. -/
def attempt {α : Type} (action : IO α) : IO (Except FileFault α) := do
  match ← action.toBaseIO with
  | .ok value => return .ok value
  | .error error => return .error (fileFault error)

/-- The bytes of a stream up to its end. -/
partial def readAll (stream : IO.FS.Stream) (done : ByteArray) : IO ByteArray := do
  let chunk ← stream.read 65536
  if chunk.isEmpty then return done else readAll stream (done ++ chunk)

/-- The content of the input of a command. -/
def readInput (path : Option Path) : IO (Except FileFault (List UInt8)) := do
  match path with
  | some path =>
    if isStandardStream (some path) then readStandard
    else return (← attempt (IO.FS.readBinFile path.text)).map (·.toList)
  | none => readStandard
where
  /-- The content of the standard input. -/
  readStandard : IO (Except FileFault (List UInt8)) := do
    return .ok (← readAll (← IO.getStdin) .empty).toList

/-- The environment variables of the settings. -/
def readEnvironment : IO Environment := do
  let names := [Settings.levelVariable, Settings.maxDepthVariable, Settings.formatVariable,
    Settings.indentVariable]
  let values ← names.mapM fun name => do return (name, ← IO.getEnv name)
  return values.filterMap fun (name, value) => value.map fun value => (name, value)

/-- Carries out what an outcome says. -/
def finish (outcome : Outcome) : IO UInt32 := do
  for record in outcome.log do IO.eprintln record.text
  IO.eprint (String.ofList outcome.stderr)
  IO.print (String.ofList outcome.stdout)
  if outcome.crash.isSome then IO.eprintln "Error: the run ended unexpectedly"
  return outcome.exitCode.toUInt32

/-- Carries out a command. -/
def perform (verbose : Bool) (command : Command) : IO UInt32 := do
  let session := Session.start (← readEnvironment) verbose
  let content ← readInput command.input?
  let outcome ← runCommand session command content fun path text =>
    attempt (IO.FS.writeFile path.text (String.ofList text))
  finish outcome

end StackScript

/-- Runs the program with the given arguments. -/
def main (args : List String) : IO UInt32 := do
  match StackScript.Invocation.parse args with
  | .error .usage =>
    IO.eprintln StackScript.usage
    return StackScript.usageExitCode.toUInt32
  | .error .badPath =>
    StackScript.finish (StackScript.badPathOutcome (← StackScript.readEnvironment))
  | .ok .version =>
    IO.println StackScript.versionLine
    return 0
  | .ok (.run verbose command) => StackScript.perform verbose command
