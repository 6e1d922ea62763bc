/-!
# Settings

The limits and defaults of a run.

## Main definitions

* `OutputFormat`: the two text formats of template documents.
* `Settings`: nesting limit, indent width, default format and log level; `Settings.make?` checks
  the ranges.
-/

namespace StackScript

/-- The text formats of template documents. -/
inductive OutputFormat where
  | yaml
  | json
deriving DecidableEq

/-- The name of a format. -/
def OutputFormat.name : OutputFormat → String
  | .yaml => "yaml"
  | .json => "json"

/-- The format with exactly the given name. -/
def OutputFormat.ofName? (name : String) : Option OutputFormat :=
  if name = "yaml" then some .yaml else if name = "json" then some .json else none

/-- The largest nesting limit that may be set. -/
def maxDepthLimit : Nat := 100

/-- The largest indent width that may be set. -/
def maxIndent : Nat := 8

/-- The settings of a run. -/
structure Settings where
  logLevel : String := "WARNING"
  maxDepth : Nat := 100
  defaultFormat : OutputFormat := .yaml
  indent : Nat := 2
  maxDepth_pos : 1 ≤ maxDepth := by decide
  maxDepth_le : maxDepth ≤ maxDepthLimit := by decide
  indent_pos : 1 ≤ indent := by decide
  indent_le : indent ≤ maxIndent := by decide
deriving DecidableEq

namespace Settings

instance : Inhabited Settings := ⟨{}⟩

/-- The settings with the given values, if nesting limit and indent width are in range. -/
def make? (logLevel : String) (maxDepth : Int) (defaultFormat : OutputFormat) (indent : Int) :
    Option Settings :=
  if h : 1 ≤ maxDepth ∧ maxDepth ≤ maxDepthLimit ∧ 1 ≤ indent ∧ indent ≤ maxIndent then
    some
      { logLevel, defaultFormat
        maxDepth := maxDepth.toNat
        indent := indent.toNat
        maxDepth_pos := by omega
        maxDepth_le := by omega
        indent_pos := by omega
        indent_le := by omega }
  else none

end Settings

end StackScript
