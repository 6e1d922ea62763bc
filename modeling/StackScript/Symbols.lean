import StackScript.Template.Basic

/-!
# Declared names

What a bare name means depends on what is declared. The table of declared names is collected from
the assignments of a template or from the sections of a document.

## Main definitions

* `SymbolTable`: the declared names of each kind.
* `SymbolTable.ofTemplate`, `SymbolTable.ofDocument?`: the two ways to collect it.
* `SymbolTable.isReferenceable`, `SymbolTable.isConditionReference`: what a bare name may refer to.
-/

namespace StackScript

/-- The declared names of each kind, without repetitions. -/
structure SymbolTable where
  parameters : List String := []
  conditions : List String := []
  resources : List String := []
  mappings : List String := []
  outputs : List String := []
  rules : List String := []
deriving DecidableEq

namespace SymbolTable

/-- The declared names of a kind. -/
def names (t : SymbolTable) : DeclKind → List String
  | .parameter => t.parameters
  | .condition => t.conditions
  | .resource => t.resources
  | .mapping => t.mappings
  | .output => t.outputs
  | .rule => t.rules

/-- The table with the given names of each kind; repetitions are dropped. -/
def ofNames (names : DeclKind → List String) : SymbolTable where
  parameters := (names .parameter).eraseDups
  conditions := (names .condition).eraseDups
  resources := (names .resource).eraseDups
  mappings := (names .mapping).eraseDups
  outputs := (names .output).eraseDups
  rules := (names .rule).eraseDups

/-- The name that a statement declares as one of a kind. -/
def declaredName? (kind : DeclKind) : Statement → Option String
  | .assign name value _ => if value.declKind? = some kind then some name else none
  | .header .. => none

/-- The names that the assignments of a template declare. -/
def ofTemplate (t : Template) : SymbolTable :=
  ofNames fun kind => t.statements.filterMap (declaredName? kind)

/-- The name that a key of a section gives: a string, or the bytes of one. -/
def nameOfKey? : Value → Option String
  | .str s => some s
  | .bytes data => String.fromUTF8? ⟨data.toArray⟩
  | _ => none

/-- The names that a section of a document declares; there are none if a key is no name. -/
def sectionNames? (document : List (Value × Value)) (kind : DeclKind) : Option (List String) :=
  match (Value.lookup kind.sectionKey document).map Value.unfold with
  | some (.map entries) => entries.mapM fun (key, _) => nameOfKey? key
  | _ => some []

/-- The names that the sections of a document declare; there is no table if a key of one of them is
no name. -/
def ofDocument? (document : List (Value × Value)) : Option SymbolTable := do
  let parameters ← sectionNames? document .parameter
  let conditions ← sectionNames? document .condition
  let resources ← sectionNames? document .resource
  let mappings ← sectionNames? document .mapping
  let outputs ← sectionNames? document .output
  let rules ← sectionNames? document .rule
  return ofNames fun
    | .parameter => parameters
    | .condition => conditions
    | .resource => resources
    | .mapping => mappings
    | .output => outputs
    | .rule => rules

/-- Whether a bare name may refer to something declared. -/
def isReferenceable (t : SymbolTable) (name : String) : Bool :=
  t.parameters.contains name || t.conditions.contains name || t.resources.contains name ||
    t.mappings.contains name

/-- Whether a bare name refers to a condition: a parameter of the same name comes first. -/
def isConditionReference (t : SymbolTable) (name : String) : Bool :=
  t.conditions.contains name && !t.parameters.contains name

end SymbolTable

end StackScript
