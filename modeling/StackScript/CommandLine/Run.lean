import StackScript.CommandLine.Arguments
import StackScript.CommandLine.FileTree
import StackScript.Decompile.Template
import StackScript.Document.Basic
import StackScript.Grammar.Script
import StackScript.Settings.Environment
import StackScript.Text.ControlSequence
import StackScript.Text.Lines

/-!
# Runs of the program

A run reads one text, works on it, and writes one text. What it does with the text is a pure
function, which also says what is logged. Faults of the user's text are reported on the error
output; anything else ends the run by a crash.

## Main definitions

* `Session`: the settings and the log level of a run.
* `Crash`: what is not reported but ends the run.
* `Command.work`: the text that a command makes of its input, with log records.
* `Outcome`: what a run leaves behind.
* `streamText`: a text as the standard streams show it.
* `runCommand`: the outcome of a command, given the content of its input and how files are written.
-/

namespace StackScript

open Number

/-! ### Settings and log level -/

/-- The settings and the log level of a run, with the records of reading them. -/
structure Session where
  settings : Settings
  level : LogLevel
  log : List LogRecord

/-- The log level before the settings are known. -/
def initialLevel : LogLevel := .warning

/-- The log records of reading the settings under a log level. -/
def settingsLog (env : Environment) (level : LogLevel) : List LogRecord :=
  visibleAt level ((Settings.ofEnvironment env).2.map fun w => ⟨.warning, w.message⟩)

/-- The session of a run. The settings are read twice, before and after the log level is set, and
warn each time. -/
def Session.start (env : Environment) (verbose : Bool) : Session :=
  let settings := (Settings.ofEnvironment env).1
  let level :=
    if verbose then .debug else (LogLevel.ofName? settings.logLevel).getD initialLevel
  ⟨settings, level, settingsLog env initialLevel ++ settingsLog env level⟩

/-! ### Work -/

/-- What is not reported but ends the run. -/
inductive Crash where
  | badPath
  | undecodable
  | integerTooLong
  | noSection
  | sectionKey
  | yaml (fault : Yaml.Fault)
  | dump (fault : DumpFault)
  | spelling (fault : SpellFault)

/-- Why a command gives no text: a message for the user, or a crash. -/
inductive CommandFault where
  | reported (message : String)
  | crash (c : Crash)

/-- Log records with the result of some work. -/
abbrev Work (α : Type) := ExceptT CommandFault (StateM (List LogRecord)) α

namespace Work

variable {α : Type}

/-- Adds a log record. -/
def log (level : LogLevel) (message : String) : Work Unit :=
  modify fun records => records ++ [⟨level, message⟩]

/-- Fails with a message that starts with a label. -/
def report (label message : String) : Work α := throw (.reported (label ++ ": " ++ message))

/-- Fails with a crash. -/
def crash (c : Crash) : Work α := throw (.crash c)

private def count (n : Nat) (what : String) : String := String.ofList (natText n) ++ " " ++ what

/-- The template of a script. -/
def parse (settings : Settings) (source : Source) : Work Template := do
  match parseScript settings.maxDepth source.text with
  | .ok t =>
    log .debug ("Parsed " ++ count t.statements.length "statements")
    return t
  | .error e =>
    match e with
    | .lex _ => report "Lex error" (e.describe source)
    | .parse _ => report "Parse error" (e.describe source)
    | .integerTooLong => crash .integerTooLong

/-- The document of a template. -/
def compile (t : Template) : Work Value := do
  let symbols := SymbolTable.ofTemplate t
  log .debug ("Symbols: " ++ ", ".intercalate
    [count symbols.parameters.length "parameters", count symbols.conditions.length "conditions",
      count symbols.resources.length "resources", count symbols.mappings.length "mappings"])
  match t.toDocument with
  | .ok document =>
    log .debug ("Rendered " ++ ", ".intercalate
      [count symbols.parameters.length "parameters", count symbols.conditions.length "conditions",
        count symbols.resources.length "resources", count symbols.outputs.length "outputs"])
    return document
  | .error (.meaning e) => report "Compile error" e.describe
  | .error .noSection => crash .noSection

/-- The text of a document. -/
def dump (format : OutputFormat) (document : Value) : Work (List Char) :=
  match dumpDocument format document with
  | .ok text => return text
  | .error fault => crash (.dump fault)

/-- The document of a text. -/
def load (text : List Char) : Work Value := do
  match loadDocument text with
  | .ok document =>
    let keys := match document.unfold with
      | .map entries => entries.map fun (key, _) => key.text
      | _ => []
    log .debug ("Loaded template document with sections: " ++ ", ".intercalate keys)
    return document
  | .error e =>
    match e with
    | .invalid .malformed => report "Decompile error" e.message
    | .invalid fault => crash (.yaml fault)
    | .longKey => crash .integerTooLong
    | _ => report "Decompile error" e.message

/-- Logs what is left out of a template. A record is put into words only if the log level lets it
through; it is then that a key may turn out to have too many digits. -/
def warn (level : LogLevel) (w : Warning) : Work Unit :=
  match level.shows .warning, w.message? with
  | true, some message => log .warning message
  | true, none => crash (.spelling .integerTooLong)
  | false, _ => pure ()

/-- The template of a document. -/
def decode (session : Session) (document : Value) : Work Template := do
  let (result, warnings) := decompileTemplate session.settings.maxDepth document
  warnings.forM (warn session.level)
  match result with
  | .ok t =>
    log .debug ("Decompiled " ++ count t.statements.length "statements")
    return t
  | .error (.decode fault) => report "Decompile error" fault.message
  | .error .sectionKey => crash .sectionKey
  | .error (.spelling fault) => crash (.spelling fault)

/-- The script of a template. -/
def spell (settings : Settings) (t : Template) : Work (List Char) :=
  match t.layout settings.indent with
  | .ok text => return text
  | .error fault => crash (.spelling fault)

end Work

/-- The text that a command makes of its input. -/
def Command.work (session : Session) (text : List Char) : Command → Work (List Char)
  | .compile input output json format => do
    let t ← Work.parse session.settings ⟨text, input⟩
    Work.dump (resolveFormat output json format session.settings) (← Work.compile t)
  | .decompile _ _ => do
    Work.spell session.settings (← Work.decode session (← Work.load text))

/-! ### Outcomes -/

/-- What a run leaves behind. -/
structure Outcome where
  exitCode : Nat := 0
  stdout : List Char := []
  stderr : List Char := []
  log : List LogRecord := []
  crash : Option Crash := none

/-- The outcome of arguments that name a path which no file can have; the settings have been read
once. -/
def badPathOutcome (env : Environment) : Outcome :=
  { exitCode := 1, log := settingsLog env initialLevel, crash := some .badPath }

/-- A text as the standard streams show it: without control sequences, and with lines that end at a
line feed alone. -/
def streamText (text : List Char) : List Char := Text.dropReturns (Text.dropControls text)

/-- Whether a path stands for the standard streams. -/
def isStandardStream (path : Option Path) : Bool :=
  match path with
  | none => true
  | some path => path.text = "-"

/-- The characters of the content of an input: UTF-8, with every line break as a line feed. -/
def decodeInput? (content : List UInt8) : Option (List Char) :=
  (String.fromUTF8? ⟨content.toArray⟩).map fun s => Text.unifyBreaks s.toList

/-- An outcome that reports a fault of a file. -/
def fileFailure (verb : String) (path : Option Path) (fault : FileFault) : Outcome :=
  let name := (path.map Path.text).getD "-"
  { exitCode := 1
    stderr := streamText
      ("Error: cannot " ++ verb ++ " " ++ name ++ ": " ++ fault.message ++ "\n").toList }

/-- The outcome of writing a text, given the result of writing to a file. -/
def writeOutcome (output : Option Path) (text : List Char) (written : Except FileFault Unit) :
    Outcome :=
  if isStandardStream output then { stdout := streamText text }
  else
    match written with
    | .ok _ =>
      { log := [⟨.info, "Wrote " ++ (output.map Path.text).getD ""⟩] }
    | .error fault => fileFailure "write" output fault

/-- The outcome of a command in a session, given the content of its input. A file is written only
when there is a text to write. -/
def runCommand {m : Type → Type} [Monad m] (session : Session) (command : Command)
    (content : Except FileFault (List UInt8))
    (write : Path → List Char → m (Except FileFault Unit)) : m Outcome := do
  let finish (records : List LogRecord) (outcome : Outcome) : Outcome :=
    { outcome with log := session.log ++ visibleAt session.level (records ++ outcome.log) }
  match content with
  | .error fault => return finish [] (fileFailure "read" command.input? fault)
  | .ok content =>
    match decodeInput? content with
    | none => return finish [] { exitCode := 1, crash := some .undecodable }
    | some text =>
      let (result, records) := (command.work session text).run.run []
      match result with
      | .error (.reported message) =>
        return finish records { exitCode := 1, stderr := streamText (message ++ "\n").toList }
      | .error (.crash c) => return finish records { exitCode := 1, crash := some c }
      | .ok text =>
        let written ← match command.output? with
          | some path => if isStandardStream (some path) then pure (.ok ()) else write path text
          | none => pure (.ok ())
        return finish records (writeOutcome command.output? text written)

/-- The exit code for arguments that do not fit. -/
def usageExitCode : Nat := 2

/-- The version of the program. -/
def version : String := "0.3.0"

/-- The line that tells the version. -/
def versionLine : String := "cfnscript " ++ version

end StackScript
