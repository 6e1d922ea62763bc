import StackScript.Spelling
import StackScript.Symbols
import StackScript.Value.Display

/-!
# Steps of reading a document as a template

A document comes from outside, so its shape is checked while it is read. A step may fail, counts
the nesting of values, and gathers warnings; depth and warnings stay as they are when it fails.

## Main definitions

* `DecodeFault`, `DecodeFault.message`: what a document can have that a script cannot express.
* `DecompileError`: why a document has no script.
* `Warning`, `Warning.message?`: what is left out of the template.
* `Decompile`: a step, with `reject`, `warn`, `within` and `tooDeep`.
-/

namespace StackScript

open Number

/-- What a document can have that a script cannot express. -/
inductive DecodeFault where
  | rootNotAMapping (kindName : String)
  | sectionNotAMapping (key kindName : String)
  | headerNotAString (key kindName : String)
  | transformShape
  | bodyNotAMapping (name kindName : String)
  | resourceNotAMapping (name kindName : String)
  | resourceWithoutType (name : String)
  | nestingTooDeep (limit : Nat)
  | notFinite (x : Double)
  | unsupported (kindName : String)
  | argumentsNotAList (key kindName : String)
  | attributeText (text : String)
  | attributeShape (kindName : String)
  | attributeParts (display : String)
deriving DecidableEq

/-- The wording of a fault. -/
def DecodeFault.message : DecodeFault → String
  | .rootNotAMapping kindName =>
    "Template must be a mapping at the top level, got " ++ kindName
  | .sectionNotAMapping key kindName => key ++ " must be a mapping, got " ++ kindName
  | .headerNotAString key kindName => key ++ " must be a string, got " ++ kindName
  | .transformShape => "Transform must be a string, a list of strings or a mapping"
  | .bodyNotAMapping name kindName => "'" ++ name ++ "' must be a mapping, got " ++ kindName
  | .resourceNotAMapping name kindName =>
    "Resource '" ++ name ++ "' must be a mapping, got " ++ kindName
  | .resourceWithoutType name => "Resource '" ++ name ++ "' has no Type"
  | .nestingTooDeep limit =>
    "Template nesting exceeds maximum depth of " ++ String.ofList (natText limit)
  | .notFinite x => "Number " ++ String.ofList x.display ++ " has no source spelling"
  | .unsupported kindName => "Unsupported value of type " ++ kindName
  | .argumentsNotAList key kindName => key ++ " expects a list, got " ++ kindName
  | .attributeText text =>
    "Fn::GetAtt string '" ++ text ++ "' must have the form Resource.Attribute"
  | .attributeShape kindName => "Fn::GetAtt expects a list or a string, got " ++ kindName
  | .attributeParts display =>
    "Fn::GetAtt needs a resource and an attribute, got " ++ display

/-- Why a document has no script. A key of a section of declarations may be no name, and a value may
have no spelling. -/
inductive DecompileError where
  | decode (fault : DecodeFault)
  | sectionKey
  | spelling (fault : SpellFault)
deriving DecidableEq

/-- What is left out of the template. -/
inductive Warning where
  | unknownSection (key : Value)
  | unknownKey (key : Value) (resource : String)

namespace Warning

/-- The key that is left out. -/
def key : Warning → Value
  | .unknownSection key => key
  | .unknownKey key _ => key

/-- The wording of a warning. -/
def message : Warning → String
  | .unknownSection key => "Skipping unknown template section '" ++ key.text ++ "'"
  | .unknownKey key resource =>
    "Skipping unknown key '" ++ key.text ++ "' on resource '" ++ resource ++ "'"

/-- The wording of a warning, if its key can be written. -/
def message? (w : Warning) : Option String := if w.key.isWritable then some w.message else none

end Warning

/-- The nesting of values that are being read, and the warnings so far. -/
structure DecompileState where
  depth : Nat := 0
  warnings : List Warning := []

/-- A step of reading a document. -/
abbrev Decompile (α : Type) := ExceptT DecompileError (StateM DecompileState) α

namespace Decompile

variable {α : Type}

/-- Fails because of something that a script cannot express. -/
def reject (fault : DecodeFault) : Decompile α := throw (.decode fault)

/-- The text of a value, or its display, where it can be written. -/
def written : Option String → Decompile String
  | some text => return text
  | none => throw (.spelling .integerTooLong)

/-- Adds a warning. -/
def warn (warning : Warning) : Decompile Unit :=
  modify fun s => { s with warnings := s.warnings ++ [warning] }

/-- A step one nesting level further in; the level is left again, whatever the step gives. -/
def within (step : Decompile α) : Decompile α := fun s =>
  let (result, after) := step { s with depth := s.depth + 1 }
  (result, { after with depth := after.depth - 1 })

/-- Entering one level too many: the level is counted and not left again. -/
def tooDeep (limit : Nat) : Decompile α := do
  modify fun s => { s with depth := s.depth + 1 }
  reject (.nestingTooDeep limit)

end Decompile

end StackScript
