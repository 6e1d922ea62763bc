import StackScript.Context
import StackScript.Symbols

/-!
# From templates to documents

Every expression denotes a value of the document. Bare names become references, by what the symbol
table says of them; calls become mappings with one key; declarations are gathered in the section of
their kind.

## Main definitions

* `MeaningFault`, `MeaningError`, `CompileError`: what can be wrong, and in which statement.
* `Expr.toValue`, `Expr.declarationValue`: the value of an expression, and of a declaration.
* `Template.toDocument`: the document of a template.
-/

namespace StackScript

/-- What can be wrong with the meaning of a template. -/
inductive MeaningFault where
  | undeclared (name : String)
  | attributeBase (kindName : String)
  | undeclaredResource (name : String)
  | undeclaredCondition (name : String)
  | undeclaredMapping (name : String)
  | refArguments
  | misplacedDeclaration (keyword : String)
  | expectedDeclaration (kindName : String)
  | noValue (kindName : String)
deriving DecidableEq

/-- The wording of a fault. -/
def MeaningFault.message : MeaningFault → String
  | .undeclared name => "Undeclared identifier '" ++ name ++ "'"
  | .attributeBase kindName =>
    "Attribute access needs a resource name on the left, got " ++ kindName
  | .undeclaredResource name => "Undeclared resource '" ++ name ++ "' in attribute access"
  | .undeclaredCondition name => "Undeclared condition '" ++ name ++ "'"
  | .undeclaredMapping name => "Undeclared mapping '" ++ name ++ "'"
  | .refArguments => "Ref() takes exactly one string name"
  | .misplacedDeclaration keyword =>
    keyword ++ " declarations are only allowed on the right of 'Name ='"
  | .expectedDeclaration kindName => "Expected a declaration, got " ++ kindName
  | .noValue kindName => "Unknown node type: " ++ kindName

/-- A fault, with the name and the line of the assignment it was found in. -/
structure MeaningError where
  fault : MeaningFault
  assignment : Option (String × Int) := none

/-- The wording of an error. -/
def MeaningError.message (e : MeaningError) : String :=
  match e.assignment with
  | some (name, _) => "In '" ++ name ++ "': " ++ e.fault.message
  | none => e.fault.message

/-- The place of an error: the start of the line of the assignment, where it is known. -/
def MeaningError.context? (e : MeaningError) : Option Context :=
  e.assignment.bind fun (_, line) => Context.ofLine? line

/-- The wording of an error after its place. -/
def MeaningError.describe (e : MeaningError) : String :=
  StackScript.describe e.context? e.message

/-- An error of compiling a template; an assignment of something that is no declaration has no
section to go to. -/
inductive CompileError where
  | meaning (error : MeaningError)
  | noSection

/-! ### Values of expressions -/

/-- The functions whose arguments are always a list. -/
def listFunctions : List String :=
  ["Not", "And", "Or", "Equals", "Join", "Split", "Select", "FindInMap", "Cidr"]

namespace Value

/-- The mapping with one entry. -/
def single (key : String) (value : Value) : Value := .map [(.str key, value)]

mutual

/-- A reference to a name, as the name alone; also inside lists. -/
def unwrapReference : Value → Value
  | .list items => .list (unwrapReferences items)
  | .map [(.str key, .str name)] =>
    if key = "Ref" ∨ key = "Condition" then .str name else single key (.str name)
  | value => value

/-- `unwrapReference` of every item. -/
def unwrapReferences : List Value → List Value
  | [] => []
  | item :: rest => unwrapReference item :: unwrapReferences rest

end

end Value

/-- The value of a call, given the values of its arguments: a single argument stands without a list,
unless the function always takes one. -/
def callValue (function : String) (args : List Value) : Value :=
  Value.single ("Fn::" ++ function) <|
    match listFunctions.contains function, args with
    | false, [arg] => arg
    | _, args => .list args

namespace Expr

/-- The value of a bare name. -/
def nameValue (symbols : SymbolTable) (name : String) : Except MeaningFault Value :=
  if isPseudo name then .ok (.single "Ref" (.str name))
  else if symbols.isConditionReference name then .ok (.single "Condition" (.str name))
  else if symbols.isReferenceable name then .ok (.single "Ref" (.str name))
  else .error (.undeclared name)

/-- The resource whose attribute is accessed. -/
def attributeBase (symbols : SymbolTable) : Expr → Except MeaningFault String
  | .name x => if symbols.resources.contains x then .ok x else .error (.undeclaredResource x)
  | e => .error (.attributeBase e.kindName)

/-- The first argument of a call as a plain name: a condition for `If`, a mapping for `FindInMap`.
Other calls, and other arguments, have none. -/
def headName? (symbols : SymbolTable) (function : String) :
    Expr → Option (Except MeaningFault String)
  | .name x =>
    if function = "If" then
      some (if symbols.conditions.contains x then .ok x else .error (.undeclaredCondition x))
    else if function = "FindInMap" then
      some (if symbols.mappings.contains x then .ok x else .error (.undeclaredMapping x))
    else none
  | _ => none

/-- The value of a reference written as a call. -/
def refValue : List Expr → Except MeaningFault Value
  | [.literal value] => .ok (.single "Ref" (.scalar value))
  | _ => .error .refArguments

mutual

/-- The value that an expression denotes. -/
def toValue (symbols : SymbolTable) : Expr → Except MeaningFault Value
  | .literal value => .ok (.scalar value)
  | .name x => nameValue symbols x
  | .object fields => do return Value.ofFields (← fieldValues symbols fields)
  | .array items => do return .list (← values symbols items)
  | .member base path => do
    let resource ← attributeBase symbols base
    return .single "Fn::GetAtt" (.list [.str resource, .str (".".intercalate path)])
  | .bracket base path => do
    let resource ← attributeBase symbols base
    return .single "Fn::GetAtt" (.list (.str resource :: path.map .str))
  | .call function args _ =>
    if function = "Ref" then refValue args
    else
      match args with
      | [] => .ok (callValue function [])
      | first :: others => do
        let first ← match headName? symbols function first with
          | some plain => .str <$> plain
          | none => toValue symbols first
        return callValue function (first :: (← values symbols others))
  | .resource .. => .error (.misplacedDeclaration "Resource")
  | .body kind _ => .error (.misplacedDeclaration kind.keyword)
  | .condition _ => .error (.misplacedDeclaration "Condition")

/-- The values of expressions in order. -/
def values (symbols : SymbolTable) : List Expr → Except MeaningFault (List Value)
  | [] => .ok []
  | first :: others => do
    let value ← toValue symbols first
    return value :: (← values symbols others)

/-- The values of the properties of an object in order. -/
def fieldValues (symbols : SymbolTable) :
    List (String × Expr) → Except MeaningFault (List (String × Value))
  | [] => .ok []
  | (key, first) :: others => do
    let value ← toValue symbols first
    return (key, value) :: (← fieldValues symbols others)

end

/-! ### Values of declarations -/

/-- The value of a modifier. Policies may be bare names, and names of other declarations stand
alone. -/
def modifierValue (symbols : SymbolTable) (modifier : String) (e : Expr) :
    Except MeaningFault Value :=
  match policyValues? modifier, e with
  | some _, .name x => .ok (.str x)
  | _, e =>
    if referenceModifiers.contains modifier then Value.unwrapReference <$> toValue symbols e
    else toValue symbols e

/-- The values of the modifiers of a resource in order. -/
def modifierValues (symbols : SymbolTable) :
    List (String × Expr) → Except MeaningFault (List (String × Value))
  | [] => .ok []
  | (modifier, e) :: others => do
    let value ← modifierValue symbols modifier e
    return (modifier, value) :: (← modifierValues symbols others)

/-- The value of a resource: its type, its properties where there are any, its modifiers. -/
def resourceValue (symbols : SymbolTable) (type : String)
    (properties : Option (List (String × Expr))) (modifiers : List (String × Expr)) :
    Except MeaningFault Value := do
  let body ← match properties with
    | some fields => do pure [("Properties", Value.ofFields (← fieldValues symbols fields))]
    | none => pure []
  let attributes ← modifierValues symbols modifiers
  return Value.ofFields (("Type", .str type) :: body ++ attributes)

/-- The value of the right side of an assignment. -/
def declarationValue (symbols : SymbolTable) : Expr → Except MeaningFault Value
  | .resource type properties modifiers => resourceValue symbols type properties modifiers
  | .condition test => toValue symbols test
  | .body _ fields => toValue symbols (.object fields)
  | e => .error (.expectedDeclaration e.kindName)

end Expr

/-! ### Documents of templates -/

/-- What a statement puts into the document: a header value, or an entry of a section. -/
inductive Entry where
  | header (kind : Header) (value : Value)
  | declaration (kind : DeclKind) (name : String) (value : Value)

/-- What a statement puts into the document. -/
def Statement.toEntry (symbols : SymbolTable) : Statement → Except CompileError Entry
  | .header kind value =>
    match value.toValue symbols with
    | .ok v => .ok (.header kind v)
    | .error fault => .error (.meaning ⟨fault, none⟩)
  | .assign name value line =>
    match value.declKind? with
    | none => .error .noSection
    | some kind =>
      match value.declarationValue symbols with
      | .ok v => .ok (.declaration kind name v)
      | .error fault => .error (.meaning ⟨fault, some (name, line)⟩)

/-- The last value given for a header. -/
def headerValue? (entries : List Entry) (kind : Header) : Option Value :=
  (entries.filterMap fun
    | .header k v => if k = kind then some v else none
    | .declaration .. => none).getLast?

/-- The declarations of a kind with their names, in order. -/
def declaredFields (entries : List Entry) (kind : DeclKind) : List (String × Value) :=
  entries.filterMap fun
    | .declaration k name v => if k = kind then some (name, v) else none
    | .header .. => none

/-- The section of a kind of declaration; only the section of resources may be empty. -/
def sectionValue? (entries : List Entry) (kind : DeclKind) : Option Value :=
  match declaredFields entries kind with
  | [] => if kind = .resource then some (.map []) else none
  | fields => some (Value.ofFields fields)

/-- The value of a section of the document, by its key. -/
def documentSection? (entries : List Entry) (key : String) : Option Value :=
  match Header.ofKeyword? key, DeclKind.ofSectionKey? key with
  | some kind, _ => headerValue? entries kind
  | none, some kind => sectionValue? entries kind
  | none, none => none

/-- The document that entries add up to, its sections in their fixed order. -/
def documentOfEntries (entries : List Entry) : Value :=
  .map (sectionOrder.filterMap fun key =>
    (documentSection? entries key).map fun value => (.str key, value))

/-- The document of a template, with names resolved by a table. -/
def Template.toDocumentWith (symbols : SymbolTable) (t : Template) : Except CompileError Value := do
  return documentOfEntries (← t.statements.mapM (Statement.toEntry symbols))

/-- The document of a template. -/
def Template.toDocument (t : Template) : Except CompileError Value :=
  t.toDocumentWith (.ofTemplate t)

/-! ### Values of fragments -/

/-- The value of a piece of a template that is an expression. -/
def Fragment.toValue (symbols : SymbolTable) : Fragment → Except MeaningFault Value
  | .expr e => e.toValue symbols
  | fragment => .error (.noValue fragment.kindName)

/-- The value of a piece of a template that is a declaration. -/
def Fragment.declarationValue (symbols : SymbolTable) : Fragment → Except MeaningFault Value
  | .expr e => e.declarationValue symbols
  | fragment => .error (.expectedDeclaration fragment.kindName)

end StackScript
