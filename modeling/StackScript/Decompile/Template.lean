import StackScript.Decompile.Value
import StackScript.Layout
import StackScript.Settings.Basic

/-!
# Documents as templates

Each section of a document gives statements: a header one, a section of declarations one per entry.
Sections and resource keys that a script has no place for are left out with a warning.

## Main definitions

* `Decompile.resource`, `Decompile.declaration`, `Decompile.template`: the parts of a document.
* `decompile`: the script of a document.
-/

namespace StackScript

namespace Decompile

/-- A document that is being read: its entries, the names they declare, and the nesting limit. -/
structure Scope where
  limit : Nat
  symbols : SymbolTable
  entries : List (Value × Value)

/-- The object with the entries of a mapping. -/
def object (scope : Scope) (entries : List (Value × Value)) : Decompile (List (String × Expr)) :=
  fields (value scope.limit scope.symbols) entries

/-- The body of a declaration, which has to be a mapping. -/
def body (scope : Scope) (name : String) (v : Value) : Decompile (List (String × Expr)) :=
  match v.unfold with
  | .map entries => object scope entries
  | _ => reject (.bodyNotAMapping name v.kindName)

/-! ### Resources -/

/-- The keys that a resource may have. -/
def resourceKeys : List String := ["Type", "Properties"] ++ modifierNames

/-- Whether a key is one of the given strings. -/
def isKnownKey (known : List String) : Value → Bool
  | .str key => known.contains key
  | _ => false

/-- The value of a modifier. Allowed policies and declared names become bare names. -/
def modifier (scope : Scope) (name : String) (v : Value) : Decompile Expr :=
  match v.unfold with
  | .str s =>
    if ((policyValues? name).getD []).contains s then return .name s
    else if referenceModifiers.contains name then return declaredName scope.symbols s
    else value scope.limit scope.symbols v
  | .list items =>
    match referenceModifiers.contains name, allStrings? items with
    | true, some names => return .array (names.map (declaredName scope.symbols))
    | _, _ => value scope.limit scope.symbols v
  | _ => value scope.limit scope.symbols v

/-- The type of a resource. -/
def resourceType (name : String) (entries : List (Value × Value)) : Decompile String :=
  match Value.lookup "Type" entries with
  | some (.str type) => if type = "" then reject (.resourceWithoutType name) else return type
  | _ => reject (.resourceWithoutType name)

/-- The properties of a resource, if it has any. -/
def properties (scope : Scope) (name : String) (entries : List (Value × Value)) :
    Decompile (Option (List (String × Expr))) := do
  match Value.lookup "Properties" entries with
  | some v => return some (← body scope (name ++ ".Properties") v)
  | none => return none

/-- The modifiers that a resource has, in their fixed order. -/
def modifiers (scope : Scope) (entries : List (Value × Value)) :
    Decompile (List (String × Expr)) :=
  let present := modifierNames.filterMap fun name =>
    (Value.lookup name entries).map fun v => (name, v)
  present.mapM fun (name, v) => return (name, ← modifier scope name v)

/-- The declaration of a resource; keys that it has no place for are left out with a warning. -/
def resource (scope : Scope) (name : String) (v : Value) : Decompile Expr := do
  match v.unfold with
  | .map entries =>
    let type ← resourceType name entries
    entries.forM fun (key, _) =>
      if isKnownKey resourceKeys key then pure () else warn (.unknownKey key name)
    let props ← properties scope name entries
    return .resource type props (← modifiers scope entries)
  | _ => reject (.resourceNotAMapping name v.kindName)

/-! ### Statements -/

/-- The declaration of an entry of a section. -/
def declaration (scope : Scope) (kind : DeclKind) (name : String) (v : Value) :
    Decompile Expr := do
  match kind with
  | .resource => resource scope name v
  | .condition => return .condition (← value scope.limit scope.symbols v)
  | .parameter => return .body .parameter (← body scope name v)
  | .mapping => return .body .mapping (← body scope name v)
  | .rule => return .body .rule (← body scope name v)
  | .output => return .body .output (← body scope name v)

/-- The value of a header that is a string. -/
def stringHeader (kind : Header) (v : Value) : Decompile Expr :=
  match v with
  | .str s => return .literal (.str s)
  | _ => reject (.headerNotAString kind.keyword v.kindName)

/-- The value of a header that is a mapping. -/
def mappingHeader (scope : Scope) (kind : Header) (v : Value) : Decompile Expr := do
  match v.unfold with
  | .map entries => return .object (← object scope entries)
  | _ => reject (.sectionNotAMapping kind.keyword v.kindName)

/-- The transform of a template: a string, a list of strings or a mapping. -/
def transform (scope : Scope) (v : Value) : Decompile Expr := do
  match v.unfold with
  | .str s => return .literal (.str s)
  | .list items =>
    match allStrings? items with
    | some names => return .array (names.map fun name => .literal (.str name))
    | none => reject .transformShape
  | .map entries => return .object (← object scope entries)
  | _ => reject .transformShape

/-- The value of a header. -/
def headerValue (scope : Scope) (kind : Header) (v : Value) : Decompile Expr :=
  match kind with
  | .formatVersion => stringHeader kind v
  | .description => stringHeader kind v
  | .transform => transform scope v
  | .metadata => mappingHeader scope kind v
  | .globals => mappingHeader scope kind v

/-- The headers that a document has, in their order. -/
def headers (scope : Scope) : Decompile (List Statement) :=
  let present := Header.all.filterMap fun kind =>
    (Value.lookup kind.keyword scope.entries).map fun v => (kind, v)
  present.mapM fun (kind, v) => return .header kind (← headerValue scope kind v)

/-- The entries of a section with their names; a section that is absent or null has none. -/
def sectionEntries (scope : Scope) (kind : DeclKind) : Decompile (List (String × Value)) :=
  match (Value.lookup kind.sectionKey scope.entries).map Value.unfold with
  | none => return []
  | some .null => return []
  | some (.map entries) => return entries.map fun (key, v) => (key.text, v)
  | some other => reject (.sectionNotAMapping kind.sectionKey other.kindName)

/-- The assignments of a section. -/
def assignments (scope : Scope) (kind : DeclKind) : Decompile (List Statement) := do
  (← sectionEntries scope kind).mapM fun (name, v) =>
    return .assign name (← declaration scope kind name v) 0

/-- The sections of declarations, in the order in which a script has them. -/
def declarationOrder : List DeclKind :=
  [.parameter, .mapping, .condition, .rule, .resource, .output]

/-- The template of a document. -/
def template (scope : Scope) : Decompile Template := do
  scope.entries.forM fun (key, _) =>
    if isKnownKey sectionOrder key then pure () else warn (.unknownSection key)
  let first ← headers scope
  let rest ← declarationOrder.mapM (assignments scope)
  return ⟨first ++ rest.flatten⟩

end Decompile

/-! ### Scripts of documents -/

/-- The document to be read, if it is a mapping whose declarations have names. -/
def Decompile.Scope.ofDocument (limit : Nat) (document : Value) :
    Except DecompileError Decompile.Scope :=
  match document.unfold with
  | .map entries =>
    match SymbolTable.ofDocument? entries with
    | some symbols => .ok ⟨limit, symbols, entries⟩
    | none => .error .sectionKey
  | _ => .error (.decode (.rootNotAMapping document.kindName))

/-- The text of a template: laid out, with a line feed at the end unless it is empty. -/
def Template.layout (indent : Nat) (t : Template) : Except SpellFault (List Char) := do
  let text ← t.spell
  return if text.isEmpty then [] else Layout.layout indent text ++ ['\n']

/-- The template of a document, and the warnings of reading it. -/
def decompileTemplate (limit : Nat) (document : Value) :
    Except DecompileError Template × List Warning :=
  match Decompile.Scope.ofDocument limit document with
  | .error e => (.error e, [])
  | .ok scope =>
    let (result, state) := (Decompile.template scope).run.run {}
    (result, state.warnings)

/-- The script of a document, and the warnings of reading it. -/
def decompile (settings : Settings) (document : Value) :
    Except DecompileError (List Char) × List Warning :=
  let (result, warnings) := decompileTemplate settings.maxDepth document
  (result.bind fun t => (t.layout settings.indent).mapError .spelling, warnings)

end StackScript
