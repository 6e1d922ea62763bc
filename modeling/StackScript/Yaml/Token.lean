/-!
# Tokens of YAML

The tokens between the characters of a YAML text and its nodes. Indentation has become start and
end tokens of blocks, and every key of a mapping is marked, whether or not the text marks it.
-/

namespace StackScript.Yaml

/-- A directive before a document. -/
inductive Directive where
  | version (major : Nat)
  | tagHandle (handle start : String)
  | unknown
deriving DecidableEq

/-- A token of YAML. A tag without a handle is written in full. -/
inductive Token where
  | directive (d : Directive)
  | documentStart
  | documentEnd
  | blockSequenceStart
  | blockMappingStart
  | blockEnd
  | flowSequenceStart
  | flowSequenceEnd
  | flowMappingStart
  | flowMappingEnd
  | blockEntry
  | flowEntry
  | key
  | value
  | alias (name : String)
  | anchor (name : String)
  | tag (handle : Option String) (suffix : String)
  | scalar (text : List Char) (plain : Bool)
  | streamEnd
deriving DecidableEq

end StackScript.Yaml
