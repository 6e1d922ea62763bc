import StackScript.Json.Writer
import StackScript.Settings.Basic
import StackScript.Value.Display
import StackScript.Yaml.Meaning
import StackScript.Yaml.Writer

/-!
# Texts of documents

A document is read from YAML, of which JSON is a part, and written as either.

## Main definitions

* `LoadError`, `LoadError.message`: why a text is no document.
* `loadDocument`, `dumpDocument`: reading and writing.
-/

namespace StackScript

/-- Why a text is no document. One of its keys may be an integer with too many digits. -/
inductive LoadError where
  | invalid (fault : Yaml.Fault)
  | empty
  | notAMapping (kindName : String)
  | longKey
deriving DecidableEq

/-- The wording of an error. -/
def LoadError.message : LoadError → String
  | .invalid _ => "Invalid template document"
  | .empty => "Template document is empty"
  | .notAMapping kindName =>
    "Template document must be a mapping at the top level, got " ++ kindName
  | .longKey => "Template document has a key with too many digits"

/-- The document of a text: a mapping. -/
def loadDocument (text : List Char) : Except LoadError Value :=
  match Yaml.read text with
  | .error fault => .error (.invalid fault)
  | .ok .null => .error .empty
  | .ok value =>
    match value.unfold with
    | .map entries =>
      if entries.all fun (key, _) => key.isWritable then .ok value else .error .longKey
    | _ => .error (.notAMapping value.kindName)

/-- The text of a document. -/
def dumpDocument : OutputFormat → Value → Except DumpFault (List Char)
  | .yaml, value => Yaml.write value
  | .json, value => Json.write value

end StackScript
