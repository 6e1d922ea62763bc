import StackScript.Compile
import StackScript.Decompile.Basic
import StackScript.Spelling

/-!
# Values as expressions

Every value is read as the expression that denotes it. A mapping whose only key names an intrinsic
function becomes a reference, an attribute access, an operator or a call where such an expression
denotes the mapping again; any other mapping becomes an object.

## Main definitions

* `Decompile.reference`, `Decompile.conditionReference`, `Decompile.attributeAccess`,
  `Decompile.listCall`: the forms of intrinsic functions.
* `Decompile.intrinsic?`: the expression of a mapping with one key.
* `Decompile.valueAt`, `Decompile.value`: the expression of a value.
-/

namespace StackScript.Decompile

open Number Text

/-- The strings of a list that holds only strings. -/
def allStrings? : List Value → Option (List String)
  | [] => some []
  | .str s :: rest => (allStrings? rest).map (s :: ·)
  | _ :: _ => none

/-! ### References -/

/-- A reference to a name: a bare name where it means this reference, else a call. -/
def reference (symbols : SymbolTable) (name : String) : Expr :=
  if Expr.isPseudo name && isIdentifier (Expr.pseudoTail name).toList then .name name
  else if symbols.isReferenceable name && !symbols.isConditionReference name &&
      isBareName name then .name name
  else .call "Ref" [.literal (.str name)] none

/-- A reference to a condition: a bare name where it means this reference, else an object. -/
def conditionReference (symbols : SymbolTable) (name : String) : Expr :=
  if symbols.isConditionReference name && isBareName name then .name name
  else .object [("Condition", .literal (.str name))]

/-- A string that may name a declaration: a bare name if it does. -/
def declaredName (symbols : SymbolTable) (name : String) : Expr :=
  if symbols.isReferenceable name && isBareName name then .name name else .literal (.str name)

/-! ### Intrinsic functions -/

/-- The two parts of an attribute that is written in one string, divided at the first dot. -/
def attributeTextParts (text : String) : Decompile (List Value) :=
  match splitAtChar '.' text.toList with
  | base :: first :: more =>
    let path := List.intercalate ['.'] (first :: more)
    return [.str (String.ofList base), .str (String.ofList path)]
  | _ => reject (.attributeText text)

/-- The access of an attribute of a declared resource, if it can be written so: with dots where all
segments are identifiers, else in brackets. -/
def accessExpr? (symbols : SymbolTable) (base : Value) (attributes : List Value) : Option Expr :=
  match base, allStrings? attributes with
  | .str resource, some names =>
    if symbols.resources.contains resource && isBareName resource then
      match names with
      | [path] =>
        let segments := splitAtChar '.' path.toList
        if segments.all isIdentifier then
          some (.member (.name resource) (segments.map String.ofList))
        else some (.bracket (.name resource) names)
      | names => some (.bracket (.name resource) names)
    else none
  | _, _ => none

/-- The access of an attribute, given the argument of the function. -/
def attributeAccess (symbols : SymbolTable) (inner : Value → Decompile Expr) (arg : Value) :
    Decompile Expr := do
  let parts ← match arg.unfold with
    | .str text => attributeTextParts text
    | .list parts => pure parts
    | _ => reject (.attributeShape arg.kindName)
  match parts with
  | base :: first :: more =>
    match accessExpr? symbols base (first :: more) with
    | some access => return access
    | none => return .call "GetAtt" (← parts.mapM inner) none
  | _ => reject (.attributeParts (← written arg.display?))

/-- Arguments whose first one is a plain name where it is one of the declared names. -/
def leadingName (declared : List String) (inner : Value → Decompile Expr) :
    List Value → Decompile (List Expr)
  | [] => return []
  | first :: others => do
    let head ← match first with
      | .str name =>
        if declared.contains name && isBareName name then pure (.name name) else inner first
      | _ => inner first
    return head :: (← others.mapM inner)

/-- The negation of an expression: an equality becomes an inequality. -/
def negation : Expr → Expr
  | .call _ args (some .eq) => .call "Not" [.call "Equals" args none] (some .ne)
  | e => .call "Not" [e] (some .not)

/-- A call of a function that always takes a list, as an operator where there is one. -/
def listCall (symbols : SymbolTable) (inner : Value → Decompile Expr) (function : String)
    (args : List Value) : Decompile Expr := do
  match function, args with
  | "Equals", [_, _] => return .call function (← args.mapM inner) (some .eq)
  | "And", _ :: _ :: _ => return .call function (← args.mapM inner) (some .and)
  | "Or", _ :: _ :: _ => return .call function (← args.mapM inner) (some .or)
  | "Not", [arg] => return negation (← inner arg)
  | "FindInMap", args => return .call function (← leadingName symbols.mappings inner args) none
  | function, args => return .call function (← args.mapM inner) none

/-- A call of any other function: a list of two or more spreads into arguments, anything else is one
argument. -/
def plainCall (symbols : SymbolTable) (inner : Value → Decompile Expr) (function : String)
    (arg : Value) : Decompile Expr := do
  match arg.unfold with
  | .list (first :: second :: more) =>
    let args := first :: second :: more
    if function = "If" then return .call function (← leadingName symbols.conditions inner args) none
    else return .call function (← args.mapM inner) none
  | _ => return .call function [← inner arg] none

/-- How keys of intrinsic functions start. -/
def functionStart : List Char := "Fn::".toList

/-- The function that a key names, if it can be called in a script. -/
def functionName? (key : String) : Option String :=
  if functionStart.isPrefixOf key.toList then
    let name := String.ofList (key.toList.drop functionStart.length)
    if isBareName name && name != "Ref" then some name else none
  else none

/-- A call of the function with the given name. -/
def functionCall (symbols : SymbolTable) (inner : Value → Decompile Expr) (key function : String)
    (arg : Value) : Decompile Expr :=
  if function = "GetAtt" then attributeAccess symbols inner arg
  else if listFunctions.contains function then
    match arg.unfold with
    | .list args => listCall symbols inner function args
    | _ => reject (.argumentsNotAList key arg.kindName)
  else plainCall symbols inner function arg

/-- The expression of a mapping with one key, unless it stays an object. -/
def intrinsic? (symbols : SymbolTable) (inner : Value → Decompile Expr) :
    Value → Value → Option (Decompile Expr)
  | .str "Ref", .str name => some (return reference symbols name)
  | .str "Condition", .str name => some (return conditionReference symbols name)
  | .str key, arg =>
    (functionName? key).map fun function => functionCall symbols inner key function arg
  | _, _ => none

/-! ### Values -/

/-- The properties of an object with the entries of a mapping. -/
def fields (inner : Value → Decompile Expr) (entries : List (Value × Value)) :
    Decompile (List (String × Expr)) :=
  entries.mapM fun (key, value) => return (← written key.text?, ← inner value)

/-- The expression of a scalar. -/
def scalar : Scalar → Decompile Expr
  | .float x => if x.isFinite then return .literal (.float x) else reject (.notFinite x)
  | s => return .literal s

/-- The expression of a value, given how the values inside it are read. -/
def valueWith (symbols : SymbolTable) (inner : Value → Decompile Expr) (value : Value) :
    Decompile Expr := do
  match value.unfold with
  | .scalar s => scalar s
  | .list items => return .array (← items.mapM inner)
  | .map entries =>
    match entries with
    | [(key, arg)] =>
      match intrinsic? symbols inner key arg with
      | some step => step
      | none => return .object (← fields inner entries)
    | entries => return .object (← fields inner entries)
  | other => reject (.unsupported other.kindName)

/-- The expression of a value, which may nest to a number of levels. -/
def valueAt (limit : Nat) (symbols : SymbolTable) : (levels : Nat) → Value → Decompile Expr
  | 0, _ => tooDeep limit
  | levels + 1, value => within (valueWith symbols (valueAt limit symbols levels) value)

/-- The expression of a value at the current depth. -/
def value (limit : Nat) (symbols : SymbolTable) (v : Value) : Decompile Expr := do
  valueAt limit symbols (limit - (← get).depth) v

end StackScript.Decompile
