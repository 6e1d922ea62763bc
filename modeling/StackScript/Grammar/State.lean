import StackScript.Settings.Basic
import StackScript.Template.Basic
import StackScript.Token.Lexer

/-!
# Reading tokens

A reader holds the current token, the one before it, the tokens still to come and the number of
nesting levels it is in. A step of a reader gives a result or an error and leaves a state in both
cases, because reading may go on after an error.

## Main definitions

* `ParseFault`, `ParseError`: what can be wrong with the tokens of a script, and where.
* `ScriptError`: all errors of reading a script, and `ScriptError.context?` their places.
* `ReaderState`, `Reader`: states and steps.
* `Reader.advance`, `Reader.peek`, `Reader.accept`, `Reader.expect`: handling of tokens.
* `Reader.within`: a step one nesting level further in.
-/

namespace StackScript

/-- What can be wrong with the tokens of a script. -/
inductive ParseFault where
  | expectedToken (kind : TokenKind) (got : Token)
  | nestingTooDeep (limit : Nat)
  | expectedStatement (got : Token)
  | duplicateDeclaration (name : String)
  | duplicateHeader (keyword : String)
  | headerNeedsString (kind : Header)
  | transformValue
  | headerNeedsObject (kind : Header)
  | expectedDeclaration (name : String) (got : Token)
  | chainedComparison
  | pseudoAttribute (name : String)
  | pathSegment (got : Token)
  | unexpected (got : Token)
  | needlessRef (spelled : String)
  | refArguments
  | expectedKey (got : Token)
  | duplicateKey (key : String)
  | bodyNeedsObject (keyword : String) (got : Token)
  | duplicateModifier (name : String)
  | emptyResourceType
  | expectedResourceType (got : Token)
  | malformedResourceType (segments : List String) (got : Token)
  | policyValue (modifier name : String) (allowed : List String)

/-- The wording of a fault. -/
def ParseFault.message : ParseFault → String
  | .expectedToken kind got => "Expected '" ++ kind.text ++ "', got " ++ got.describe
  | .nestingTooDeep limit =>
    "Expression nesting exceeds maximum depth of " ++ String.ofList (Number.natText limit)
  | .expectedStatement got => "Expected a section or an assignment, got " ++ got.describe
  | .duplicateDeclaration name => "Duplicate declaration '" ++ name ++ "'"
  | .duplicateHeader keyword => "Duplicate " ++ keyword ++ " section"
  | .headerNeedsString kind => kind.keyword ++ " expects a string"
  | .transformValue => "Transform expects a string, a list of strings or an object"
  | .headerNeedsObject kind => kind.keyword ++ " expects an object literal"
  | .expectedDeclaration name got =>
    "Expected a declaration (" ++ ", ".intercalate declarationKeywords ++ ") after '" ++ name ++
      " =', got " ++ got.describe
  | .chainedComparison => "Comparisons do not chain; use parentheses to group them"
  | .pseudoAttribute name =>
    "Pseudo parameter " ++ Expr.pseudoBase ++ "." ++ Expr.pseudoTail name ++ " has no attributes"
  | .pathSegment got => "Attribute path segments must be strings, got " ++ got.describe
  | .unexpected got => "Unexpected " ++ got.describe
  | .needlessRef spelled => "Use '" ++ spelled ++ "' directly instead of Ref(" ++ spelled ++ ")"
  | .refArguments => "Ref() takes exactly one string name"
  | .expectedKey got => "Expected a property name, got " ++ got.describe
  | .duplicateKey key => "Duplicate key '" ++ key ++ "'"
  | .bodyNeedsObject keyword got =>
    keyword ++ " expects an object literal, got " ++ got.describe
  | .duplicateModifier name => "Duplicate resource attribute " ++ name
  | .emptyResourceType => "Resource type must not be empty"
  | .expectedResourceType got =>
    "Expected a resource type such as AWS::S3::Bucket, got " ++ got.describe
  | .malformedResourceType segments got =>
    "Malformed resource type '" ++ "::".intercalate segments ++
      "::': expected a name after '::', got " ++ got.describe
  | .policyValue modifier name allowed =>
    "Invalid " ++ modifier ++ " value '" ++ name ++ "'. Must be one of: " ++
      ", ".intercalate allowed

/-- A fault and the place of the token it was found at. -/
structure ParseError where
  fault : ParseFault
  line : Nat
  column : Nat

/-- An error of reading a script. An integer with too many digits is refused without a place. -/
inductive ScriptError where
  | lex (error : LexError)
  | parse (error : ParseError)
  | integerTooLong

namespace ScriptError

/-- Line and column of an error. -/
def place? : ScriptError → Option (Nat × Nat)
  | .lex error => some (error.line, error.column)
  | .parse error => some (error.line, error.column)
  | .integerTooLong => none

/-- The place of an error in a script. -/
def context? (source : Source) (e : ScriptError) : Option Context :=
  e.place?.map fun (line, column) => source.context line column

/-- The wording of an error. -/
def message : ScriptError → String
  | .lex error => error.fault.message
  | .parse error => error.fault.message
  | .integerTooLong => "Integer literal has too many digits"

/-- The wording of an error after its place. -/
def describe (source : Source) (e : ScriptError) : String :=
  StackScript.describe (e.context? source) e.message

end ScriptError

/-- The state of reading: current and previous token, what follows, and the nesting level. -/
structure ReaderState where
  current : Token
  previous : Token
  following : TokenStream
  depth : Nat

/-- A step of reading. -/
abbrev Reader (α : Type) := ExceptT ScriptError (StateM ReaderState) α

/-- The state before a script; its first token has been read. -/
def ReaderState.start (text : List Char) : Except LexError ReaderState := do
  let tokens := TokenStream.ofText text
  let first ← tokens.head
  return ⟨first, first, tokens.tail, 0⟩

/-- A bound on the number of tokens still to come. -/
def ReaderState.remaining (s : ReaderState) : Nat := s.following.items.length + 2

namespace Reader

variable {α : Type}

/-- Fails at a given token. -/
def failAt (token : Token) (fault : ParseFault) : Reader α :=
  throw (.parse ⟨fault, token.line, token.column⟩)

/-- The current token. -/
def current : Reader Token := do return (← get).current

/-- Fails at the current token. -/
def fail (fault : ParseFault) : Reader α := do failAt (← current) fault

/-- Passes the current token and returns it. At the end of input the token stays; if the next token
is faulty, current and previous token stay, but the fault has been passed. -/
def advance : Reader Token := do
  let s ← get
  if s.current.kind = .eof then
    set { s with previous := s.current }
    return s.current
  else
    match s.following.head with
    | .ok token =>
      set { s with current := token, previous := s.current, following := s.following.tail }
      return s.current
    | .error e =>
      set { s with following := s.following.tail }
      throw (.lex e)

/-- The token after the current one. -/
def peek : Reader Token := do
  match (← get).following.head with
  | .ok token => return token
  | .error e => throw (.lex e)

/-- Whether the current token is of one of the given kinds. -/
def atAny (kinds : List TokenKind) : Reader Bool := do return kinds.contains (← current).kind

/-- Whether the current token is of a given kind. -/
def at? (kind : TokenKind) : Reader Bool := do return (← current).kind = kind

/-- Passes the current token if it is of one of the given kinds. -/
def acceptAny (kinds : List TokenKind) : Reader (Option Token) := do
  if ← atAny kinds then return some (← advance) else return none

/-- Passes the current token if it is of the given kind, and tells whether it was. -/
def accept (kind : TokenKind) : Reader Bool := do
  return (← acceptAny [kind]).isSome

/-- Passes a token that has to be of the given kind. -/
def expect (kind : TokenKind) : Reader Token := do
  let token ← current
  if token.kind = kind then advance else failAt token (.expectedToken kind token)

/-- A step one nesting level further in; the level is left again, whatever the step gives. -/
def within (step : Reader α) : Reader α := fun s =>
  let (result, after) := step { s with depth := s.depth + 1 }
  (result, { after with depth := after.depth - 1 })

/-- Entering one level too many: the level is counted and not left again. -/
def tooDeep (limit : Nat) : Reader α := do
  modify fun s => { s with depth := s.depth + 1 }
  fail (.nestingTooDeep limit)

end Reader

end StackScript
