import StackScript.Path
import StackScript.Settings.Basic
import StackScript.Text.LetterCase

/-!
# Arguments of the command line

Options of the whole program stand before the name of the command, options of the command anywhere
after it. Two hyphens alone end the options, and a single hyphen is no option.

## Main definitions

* `Command`, `Invocation`: what the program is asked to do.
* `ArgumentFault`: why arguments ask for nothing that can be done.
* `Invocation.parse`: the invocation that arguments ask for.
* `resolveFormat`: the format of the output.
-/

namespace StackScript

open Text

/-- A command with its input and output; both may be left out. -/
inductive Command where
  | compile (input output : Option Path) (json : Bool) (format : Option OutputFormat)
  | decompile (input output : Option Path)

/-- What the program is asked to do. -/
inductive Invocation where
  | version
  | run (verbose : Bool) (command : Command)

/-- Why arguments ask for nothing that can be done: they do not fit, or name a path that no file can
have. -/
inductive ArgumentFault where
  | usage
  | badPath
deriving DecidableEq

/-- The result of reading arguments that may not fit. -/
def ArgumentFault.unlessFits {α : Type} : Option α → Except ArgumentFault α
  | some a => .ok a
  | none => .error .usage

namespace Command

/-- The input of a command. -/
def input? : Command → Option Path
  | .compile input _ _ _ => input
  | .decompile input _ => input

/-- The output of a command. -/
def output? : Command → Option Path
  | .compile _ output _ _ => output
  | .decompile _ output => output

/-! ### Options -/

/-- Whether an argument is an option: a hyphen with more after it. -/
def isOption : List Char → Bool
  | '-' :: _ :: _ => true
  | _ => false

/-- The name of an option, and the value that follows it after an equals sign. -/
def splitOption (arg : List Char) : List Char × Option (List Char) :=
  let name := arg.takeWhile (· != '=')
  match arg.drop name.length with
  | _ :: value => (name, some value)
  | [] => (name, none)

/-- The format with the given name, in any case; the old long letter counts as an `s`. -/
def formatOf? (value : List Char) : Option OutputFormat :=
  OutputFormat.ofName? (String.ofList ((lower value).map fun c => if c == 'ſ' then 's' else c))

/-- The options and operands of a command; the last format counts. -/
structure Operands where
  json : Bool := false
  format : Option (List Char) := none
  paths : List String := []

/-- What an option of the compile command asks for: nothing more, or a value in the next
argument. -/
inductive OptionUse where
  | json
  | format (value : List Char)
  | formatNext

/-- The use of an option of the compile command. -/
def compileOption? (arg : List Char) : Option OptionUse :=
  match arg with
  | ['-', 'f'] => some .formatNext
  | '-' :: 'f' :: value => some (.format value)
  | arg =>
    match splitOption arg with
    | (name, value) =>
      if name = "--json".toList then if value.isNone then some .json else none
      else if name = "--format".toList then
        match value with
        | some value => some (.format value)
        | none => some .formatNext
      else none

/-- The operands of the compile command. -/
def compileOperands? (done : Operands) : List String → Option Operands
  | [] => some done
  | arg :: rest =>
    if arg = "--" then some { done with paths := done.paths ++ rest }
    else if isOption arg.toList then do
      match ← compileOption? arg.toList with
      | .json => compileOperands? { done with json := true } rest
      | .format value => compileOperands? { done with format := some value } rest
      | .formatNext =>
        match rest with
        | [] => none
        | value :: more => compileOperands? { done with format := some value.toList } more
    else compileOperands? { done with paths := done.paths ++ [arg] } rest

/-- The operands of the decompile command, which has no options. -/
def decompileOperands? (done : Operands) : List String → Option Operands
  | [] => some done
  | arg :: rest =>
    if arg = "--" then some { done with paths := done.paths ++ rest }
    else if isOption arg.toList then none
    else decompileOperands? { done with paths := done.paths ++ [arg] } rest

/-- Whether a text can be a path: no path holds the character that ends it. -/
def isPath (operand : String) : Bool := !operand.toList.contains '\x00'

/-- Input and output among the operands. They are looked at before it is noticed that there are more
operands. -/
def paths (operands : List String) : Except ArgumentFault (Option Path × Option Path) :=
  if !(operands.take 2).all isPath then .error .badPath
  else
    match operands with
    | [] => .ok (none, none)
    | [input] => .ok (some (.ofString input), none)
    | [input, output] => .ok (some (.ofString input), some (.ofString output))
    | _ => .error .usage

/-- The compile command with the given arguments. -/
def parseCompile (args : List String) : Except ArgumentFault Command := do
  let operands ← ArgumentFault.unlessFits (compileOperands? {} args)
  let format ← match operands.format with
    | some value => some <$> ArgumentFault.unlessFits (formatOf? value)
    | none => pure none
  let (input, output) ← paths operands.paths
  return .compile input output operands.json format

/-- The decompile command with the given arguments. -/
def parseDecompile (args : List String) : Except ArgumentFault Command := do
  let operands ← ArgumentFault.unlessFits (decompileOperands? {} args)
  let (input, output) ← paths operands.paths
  return .decompile input output

/-- How the arguments of the command with the given name are read. -/
def ofName? : String → Option (List String → Except ArgumentFault Command)
  | "compile" => some parseCompile
  | "decompile" => some parseDecompile
  | _ => none

end Command

/-- The options of the whole program. -/
structure ProgramOptions where
  version : Bool := false
  verbose : Bool := false

namespace ProgramOptions

/-- The options with one more. -/
def add? (options : ProgramOptions) (arg : List Char) : Option ProgramOptions :=
  if arg = "--version".toList then some { options with version := true }
  else if arg = "--verbose".toList then some { options with verbose := true }
  else
    match arg with
    | '-' :: letters =>
      if letters.all (· == 'v') then some { options with verbose := true } else none
    | _ => none

/-- The options that arguments start with, after the given ones, and the other arguments. -/
def read? (done : ProgramOptions) : List String → Option (ProgramOptions × List String)
  | [] => some (done, [])
  | arg :: rest =>
    if arg = "--" then some (done, rest)
    else if Command.isOption arg.toList then do read? (← done.add? arg.toList) rest
    else some (done, arg :: rest)

end ProgramOptions

/-- The invocation that arguments ask for. Where the name of a command should stand, options are
read once more, so that the version may be asked for after two hyphens, too. -/
def Invocation.parse (args : List String) : Except ArgumentFault Invocation := do
  let (options, rest) ← ArgumentFault.unlessFits (ProgramOptions.read? {} args)
  if options.version then return .version
  else
    match rest with
    | [] => .error .usage
    | name :: commandArgs =>
      match Command.ofName? name with
      | some parseArgs => return .run options.verbose (← parseArgs commandArgs)
      | none =>
        let (again, _) ← ArgumentFault.unlessFits (ProgramOptions.read? {} rest)
        if again.version then return .version else .error .usage

/-- The format of the output: the one that is asked for, else the one that the output's suffix
names, else the default. -/
def resolveFormat (output : Option Path) (json : Bool) (format : Option OutputFormat)
    (settings : Settings) : OutputFormat :=
  if json then .json
  else
    match format with
    | some format => format
    | none =>
      match output.map fun path => String.ofList (lower path.suffix) with
      | some ".json" => .json
      | some ".yaml" => .yaml
      | some ".yml" => .yaml
      | _ => settings.defaultFormat

end StackScript
