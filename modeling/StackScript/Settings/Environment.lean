import StackScript.Log
import StackScript.Number.Numeral
import StackScript.Settings.Basic
import StackScript.Text.Quoted

/-!
# Settings from environment variables

Each setting has a variable. Blanks around a value do not count, an empty value is none, and a value
that does not fit is ignored with a warning.

## Main definitions

* `SettingsWarning`, `SettingsWarning.message`: why a value is ignored.
* `Settings.ofEnvironment`: the settings, and the warnings.
-/

namespace StackScript

open Number Text

/-- Why the value of a variable is ignored. -/
inductive SettingsWarning where
  | unknownLevel (value : String)
  | unknownFormat (value : String)
  | notAnInteger (variableName value : String) (standard : Nat)
  | outOfRange (variableName : String) (value : Int) (most : Nat)
deriving DecidableEq

namespace Settings

/-- The variable of the log level. -/
def levelVariable : String := "CFNSCRIPT_LOG_LEVEL"

/-- The variable of the nesting limit. -/
def maxDepthVariable : String := "CFNSCRIPT_MAX_DEPTH"

/-- The variable of the default format. -/
def formatVariable : String := "CFNSCRIPT_FORMAT"

/-- The variable of the indent width. -/
def indentVariable : String := "CFNSCRIPT_INDENT"

end Settings

/-- The wording of a warning. -/
def SettingsWarning.message : SettingsWarning → String
  | .unknownLevel value =>
    "Unknown " ++ Settings.levelVariable ++ " value '" ++ value ++ "'. Valid values: " ++
      ", ".intercalate (LogLevel.all.map LogLevel.name) ++ ". Using WARNING."
  | .unknownFormat value =>
    "Unknown " ++ Settings.formatVariable ++ " value '" ++ value ++ "'. Using yaml."
  | .notAnInteger variableName value standard =>
    "Ignoring " ++ variableName ++ "=" ++ quoted value ++ ": not an integer. Using " ++
      String.ofList (natText standard) ++ "."
  | .outOfRange variableName value most =>
    "Ignoring " ++ variableName ++ "=" ++ String.ofList (intText value) ++
      ": must be between 1 and " ++ String.ofList (natText most) ++ "."

/-- The values of environment variables. -/
abbrev Environment := List (String × String)

namespace Environment

/-- The value of a variable, empty if it is not set. -/
def value (env : Environment) (variableName : String) : List Char :=
  ((env.lookup variableName).getD "").toList

/-- The log level, if one is given. -/
def level (env : Environment) : Option String × List SettingsWarning :=
  let name := String.ofList (trim (upper (env.value Settings.levelVariable)))
  if name.isEmpty then (none, [])
  else if (LogLevel.ofName? name).isSome then (some name, [])
  else (none, [.unknownLevel name])

/-- The default format, if one is given. -/
def format (env : Environment) : Option OutputFormat × List SettingsWarning :=
  let name := String.ofList (trim (lower (env.value Settings.formatVariable)))
  if name.isEmpty then (none, [])
  else
    match OutputFormat.ofName? name with
    | some format => (some format, [])
    | none => (none, [.unknownFormat name])

/-- An integer, or a standard value. -/
def integer (env : Environment) (variableName : String) (standard : Nat) :
    Int × List SettingsWarning :=
  let raw := trim (env.value variableName)
  if raw.isEmpty then (standard, [])
  else
    match readInteger? 10 raw with
    | some n => (n, [])
    | none => (standard, [.notAnInteger variableName (String.ofList raw) standard])

/-- A number from one to `most`, or a standard value. -/
def number (env : Environment) (variableName : String) (standard most : Nat) :
    Nat × List SettingsWarning :=
  let (n, warnings) := env.integer variableName standard
  if 1 ≤ n ∧ n ≤ most then (n.toNat, warnings)
  else (standard, warnings ++ [.outOfRange variableName n most])

private theorem number_range (env : Environment) (variableName : String) {standard most : Nat}
    (h : 1 ≤ standard ∧ standard ≤ most) :
    1 ≤ (env.number variableName standard most).1 ∧
      (env.number variableName standard most).1 ≤ most := by
  rw [number]
  split
  next n _ _ =>
    by_cases inRange : 1 ≤ n ∧ n ≤ most
    · rw [if_pos inRange]
      exact ⟨by omega, by omega⟩
    · rw [if_neg inRange]
      exact h

end Environment

/-- The settings that environment variables give, and the warnings about values that are
ignored. -/
def Settings.ofEnvironment (env : Environment) : Settings × List SettingsWarning :=
  let standard : Settings := default
  let (level, levelWarnings) := env.level
  let (format, formatWarnings) := env.format
  let depth := env.number maxDepthVariable standard.maxDepth maxDepthLimit
  let width := env.number indentVariable standard.indent maxIndent
  have depthRange := env.number_range maxDepthVariable
    ⟨standard.maxDepth_pos, standard.maxDepth_le⟩
  have widthRange := env.number_range indentVariable ⟨standard.indent_pos, standard.indent_le⟩
  ({ logLevel := level.getD standard.logLevel
     maxDepth := depth.1
     defaultFormat := format.getD standard.defaultFormat
     indent := width.1
     maxDepth_pos := depthRange.1
     maxDepth_le := depthRange.2
     indent_pos := widthRange.1
     indent_le := widthRange.2 },
    levelWarnings ++ formatWarnings ++ depth.2 ++ width.2)

end StackScript
