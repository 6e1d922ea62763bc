import StackScript.Grammar.Expression

/-!
# Reading scripts

A script is a sequence of header statements and assignments. Names are declared once for each kind
of declaration, and each header occurs at most once.

## Main definitions

* `Reader.statement`, `Reader.template`: one statement, and all of them.
* `parseScript`: the template that a script spells.
-/

namespace StackScript

namespace Reader

/-- Whether an expression is allowed as the value of a header. -/
def headerValueFits (kind : Header) (value : Expr) : Bool :=
  match kind with
  | .formatVersion | .description => value.isString
  | .transform =>
    match value with
    | .object _ => true
    | .array items => items.all Expr.isString
    | value => value.isString
  | .metadata | .globals =>
    match value with
    | .object _ => true
    | _ => false

/-- What is wrong with a value that a header does not allow. -/
def headerFault (kind : Header) : ParseFault :=
  match kind with
  | .formatVersion | .description => .headerNeedsString kind
  | .transform => .transformValue
  | .metadata | .globals => .headerNeedsObject kind

/-- A header statement. -/
def header (limit : Nat) (kind : Header) : Reader Statement := do
  let _ ← advance
  let token ← current
  let value ← expression limit
  if headerValueFits kind value then return .header kind value
  else failAt token (headerFault kind)

/-- An assignment of a declaration to a name. -/
def assignment (limit : Nat) : Reader Statement := do
  let name ← advance
  let _ ← expect .equals
  let token ← current
  let value ← expression limit
  if value.isDeclaration then return .assign name.value value name.line
  else failAt token (.expectedDeclaration name.value token)

/-- A statement. The keyword of a header before an equals sign is a name. -/
def statement (limit : Nat) : Reader Statement := do
  let token ← current
  let header? := if token.kind = .identifier then Header.ofKeyword? token.value else none
  match header? with
  | some kind =>
    if (← peek).kind = .equals then assignment limit else header limit kind
  | none =>
    if token.kind = .identifier ∨ token.kind = .string then assignment limit
    else fail (.expectedStatement token)

/-- The headers and the declared names that have been read. -/
structure Seen where
  headers : List Header := []
  names : List (Option DeclKind × String) := []

/-- Notes a statement that starts at `token`; neither a header nor a declaration may come twice. -/
def noteStatement (token : Token) (seen : Seen) : Statement → Reader Seen
  | .assign name value _ => do
    if seen.names.contains (value.declKind?, name) then failAt token (.duplicateDeclaration name)
    else return { seen with names := (value.declKind?, name) :: seen.names }
  | .header kind _ => do
    if seen.headers.contains kind then failAt token (.duplicateHeader token.value)
    else return { seen with headers := kind :: seen.headers }

/-- The statements up to the end of input. -/
def statements (limit : Nat) (seen : Seen) : (bound : Nat) → Reader (List Statement)
  | 0 => return []
  | bound + 1 => do
    let token ← current
    if token.kind = .eof then return []
    else
      let first ← statement limit
      let seen ← noteStatement token seen first
      return first :: (← statements limit seen bound)

/-- The whole script. -/
def template (limit : Nat) : Reader Template := do
  return ⟨← statements limit {} (← get).remaining⟩

end Reader

/-- The template that a script spells under a nesting limit. -/
def parseScript (limit : Nat) (text : List Char) : Except ScriptError Template :=
  match ReaderState.start text with
  | .ok state => ((Reader.template limit).run.run state).1
  | .error e => .error (.lex e)

end StackScript
