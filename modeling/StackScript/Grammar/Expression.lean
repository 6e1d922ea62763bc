import StackScript.Grammar.State
import StackScript.Number.Decimal

/-!
# Reading expressions

From the loosest to the tightest: `||`, `&&`, one comparison, `!`, attribute access, and the
primary expressions. Each rule takes the rules it descends to as arguments, and two of them go one
nesting level further in: an expression in an expression, and the operand of `!`. The rules of all
levels are tied together by recursion on the number of levels that are left.

## Main definitions

* `Reader.disjunction`, `Reader.conjunction`, `Reader.comparison`, `Reader.unary`,
  `Reader.suffixed`, `Reader.primary`: the rules of one level.
* `Reader.call`, `Reader.object`, `Reader.array`, `Reader.resource`: calls, literals, declarations.
* `Reader.unaryAt`, `Reader.expressionAt`: the rules with a given number of levels left.
* `Reader.expression`: an expression at the level of the current state.
-/

namespace StackScript.Reader

open Number

/-! ### Operators -/

/-- Further operands, each after a sign; `limit` bounds their number. -/
def operands (sign : TokenKind) (operand : Reader Expr) : (limit : Nat) → Reader (List Expr)
  | 0 => return []
  | limit + 1 => do
    if ← accept sign then
      let first ← operand
      return first :: (← operands sign operand limit)
    else return []

/-- Operands with a sign between them, as one call of all operands; a single operand is itself. -/
def joined (sign : TokenKind) (function : String) (operator : Operator) (operand : Reader Expr) :
    Reader Expr := do
  let first ← operand
  let others ← operands sign operand (← get).remaining
  if others.isEmpty then return first
  else return .call function (first :: others) (some operator)

/-- At most one comparison; a second one has to be grouped by parentheses. -/
def comparison (unary : Reader Expr) : Reader Expr := do
  let left ← unary
  match ← acceptAny [.doubleEquals, .notEquals] with
  | none => return left
  | some sign =>
    let right ← unary
    if ← atAny [.doubleEquals, .notEquals] then fail .chainedComparison
    else if sign.kind = .doubleEquals then return .call "Equals" [left, right] (some .eq)
    else return .call "Not" [.call "Equals" [left, right] none] (some .ne)

/-- Comparisons joined by `&&`. -/
def conjunction (unary : Reader Expr) : Reader Expr :=
  joined .doubleAmpersand "And" .and (comparison unary)

/-- Conjunctions joined by `||`. -/
def disjunction (unary : Reader Expr) : Reader Expr :=
  joined .doublePipe "Or" .or (conjunction unary)

/-! ### Lists of things -/

/-- Strings with commas between them, at least one. -/
def pathSegments : (limit : Nat) → Reader (List String)
  | 0 => return []
  | limit + 1 => do
    let token ← current
    if token.kind = .string then
      let segment := (← advance).value
      if ← accept .comma then return segment :: (← pathSegments limit)
      else return [segment]
    else failAt token (.pathSegment token)

/-- A path of attributes in brackets. -/
def bracketPath : Reader (List String) := do
  let _ ← expect .lbracket
  let path ← pathSegments (← get).remaining
  let _ ← expect .rbracket
  return path

/-- Further arguments, each after a comma. -/
def moreArguments (expr : Reader Expr) : (limit : Nat) → Reader (List Expr)
  | 0 => return []
  | limit + 1 => do
    if ← accept .comma then
      let first ← expr
      return first :: (← moreArguments expr limit)
    else return []

/-- The arguments of a call up to its closing parenthesis. -/
def arguments (expr : Reader Expr) : Reader (List Expr) := do
  if ← at? .rparen then return []
  else
    let first ← expr
    return first :: (← moreArguments expr (← get).remaining)

/-- The items of an array up to its closing bracket; a comma may follow the last one. -/
def arrayItems (expr : Reader Expr) : (limit : Nat) → Reader (List Expr)
  | 0 => return []
  | limit + 1 => do
    if ← at? .rbracket then return []
    else
      let first ← expr
      if ← accept .comma then return first :: (← arrayItems expr limit)
      else return [first]

/-- The properties of an object up to its closing brace; a comma may follow the last one, and
`seen` holds the keys so far. -/
def objectFields (expr : Reader Expr) (seen : List String) :
    (limit : Nat) → Reader (List (String × Expr))
  | 0 => return []
  | limit + 1 => do
    if ← at? .rbrace then return []
    else
      let key ← current
      if !([.identifier, .string, .number].contains key.kind) then
        failAt key (.expectedKey key)
      else
        let _ ← advance
        if seen.contains key.value then failAt key (.duplicateKey key.value)
        else
          let _ ← expect .colon
          let value ← expr
          if ← accept .comma then
            return (key.value, value) :: (← objectFields expr (key.value :: seen) limit)
          else return [(key.value, value)]

/-- The properties of an object literal with its braces. -/
def fields (expr : Reader Expr) : Reader (List (String × Expr)) := do
  let _ ← expect .lbrace
  let properties ← objectFields expr [] (← get).remaining
  let _ ← expect .rbrace
  return properties

/-- An object literal. -/
def object (expr : Reader Expr) : Reader Expr := do return .object (← fields expr)

/-- An array literal. -/
def array (expr : Reader Expr) : Reader Expr := do
  let _ ← expect .lbracket
  let items ← arrayItems expr (← get).remaining
  let _ ← expect .rbracket
  return .array items

/-! ### Calls -/

/-- A reference is written by a call only when its name cannot be written bare. -/
def checkRef (token : Token) (args : List Expr) : Reader Unit :=
  match args with
  | [.name name] =>
    let spelled :=
      if Expr.isPseudo name then Expr.pseudoBase ++ "." ++ Expr.pseudoTail name else name
    failAt token (.needlessRef spelled)
  | [arg] => if arg.isString then return () else failAt token .refArguments
  | _ => failAt token .refArguments

/-- A call of an intrinsic function. -/
def call (expr : Reader Expr) : Reader Expr := do
  let name ← expect .identifier
  let _ ← expect .lparen
  let args ← arguments expr
  let _ ← expect .rparen
  if name.value = "Ref" then checkRef name args
  return .call name.value args none

/-! ### Declarations -/

/-- Further segments of a resource type, each after a double colon. -/
def typeSegments (segments : List String) : (limit : Nat) → Reader (List String)
  | 0 => return segments
  | limit + 1 => do
    if ← accept .doubleColon then
      let token ← current
      if token.kind = .identifier then
        let segment := (← advance).value
        typeSegments (segments ++ [segment]) limit
      else failAt token (.malformedResourceType segments token)
    else return segments

/-- The type of a resource: names with double colons between them, or a string. -/
def resourceType : Reader String := do
  let token ← current
  if token.kind = .string then
    let _ ← advance
    if token.value.isEmpty then failAt token .emptyResourceType else return token.value
  else if token.kind = .identifier then
    let first := (← advance).value
    let segments ← typeSegments [first] (← get).remaining
    return "::".intercalate segments
  else failAt token (.expectedResourceType token)

/-- A policy given by a bare name has to be an allowed one. -/
def checkPolicy (token : Token) (value : Expr) : Reader Unit :=
  match policyValues? token.value, value with
  | some allowed, .name name =>
    if allowed.contains name then return ()
    else failAt token (.policyValue token.value name allowed)
  | _, _ => return ()

/-- Whether a modifier starts here: on the line that the resource or the previous modifier ended
on, and before a parenthesis. -/
def atModifier : Reader Bool := do
  let s ← get
  if s.current.kind = .identifier ∧ modifierNames.contains s.current.value ∧
      s.current.line = s.previous.line then
    return (← peek).kind = .lparen
  else return false

/-- The modifiers of a resource; `seen` holds the names so far. -/
def modifiers (expr : Reader Expr) (seen : List String) :
    (limit : Nat) → Reader (List (String × Expr))
  | 0 => return []
  | limit + 1 => do
    if ← atModifier then
      let name ← advance
      if seen.contains name.value then failAt name (.duplicateModifier name.value)
      else
        let _ ← expect .lparen
        let value ← expr
        let _ ← expect .rparen
        checkPolicy name value
        return (name.value, value) :: (← modifiers expr (name.value :: seen) limit)
    else return []

/-- The declaration of a resource: its type, its properties if an object follows, and its
modifiers. -/
def resource (expr : Reader Expr) : Reader Expr := do
  let _ ← expect .identifier
  let type ← resourceType
  let properties ← if ← at? .lbrace then some <$> fields expr else pure none
  let attributes ← modifiers expr [] (← get).remaining
  return .resource type properties attributes

/-- The object of a declaration, with or without parentheses around it. -/
def declarationBody (expr : Reader Expr) (keyword : Token) : Reader (List (String × Expr)) := do
  let refuse : Reader (List (String × Expr)) := do
    fail (.bodyNeedsObject keyword.value (← current))
  if ← at? .lbrace then fields expr
  else if ← at? .lparen then
    if (← peek).kind = .lbrace then
      let _ ← advance
      let properties ← fields expr
      let _ ← expect .rparen
      return properties
    else refuse
  else refuse

/-! ### Primary expressions -/

/-- The value of a number token: an integer, or a floating-point number if it has a point. -/
def numberValue (text : List Char) : Option Scalar :=
  if text.contains '.' then (Decimal.read? text).map fun d => .float d.toDouble
  else
    let (negative, digits) := Decimal.splitSign text
    if maxIntegerDigits < digits.length then none
    else
      let size := (digitsValue digits : Int)
      some (.int (if negative then -size else size))

/-- The literals that are spelled by a word. -/
def keywordLiteral? : String → Option Scalar
  | "true" => some (.bool true)
  | "false" => some (.bool false)
  | "null" => some .null
  | _ => none

/-- An expression that starts with an identifier: a literal word, a declaration, a call or a
name. -/
def word (expr : Reader Expr) (token : Token) : Reader Expr := do
  match keywordLiteral? token.value with
  | some value =>
    let _ ← advance
    return .literal value
  | none =>
    if token.value = "Resource" then resource expr
    else if token.value = "Condition" then
      let _ ← advance
      return .condition (← expr)
    else
      match BodyKind.ofKeyword? token.value with
      | some kind =>
        let _ ← advance
        return .body kind (← declarationBody expr token)
      | none =>
        if (← peek).kind = .lparen then call expr
        else
          let _ ← advance
          return .name token.value

/-- A literal, a parenthesised expression, an object, an array, a declaration, a call or a name. -/
def primary (expr : Reader Expr) : Reader Expr := do
  let token ← current
  match token.kind with
  | .string =>
    let _ ← advance
    return .literal (.str token.value)
  | .number =>
    let _ ← advance
    match numberValue token.value.toList with
    | some value => return .literal value
    | none => throw .integerTooLong
  | .lbrace => object expr
  | .lbracket => array expr
  | .lparen =>
    let _ ← advance
    let inner ← expr
    let _ ← expect .rparen
    return inner
  | .identifier => word expr token
  | _ => failAt token (.unexpected token)

/-! ### Attribute access -/

/-- The expression `base.attr`. Dots in a row form one path, and an attribute of the base of
pseudo parameters is a pseudo parameter. -/
def dotted (base : Expr) (dot : Token) (attr : String) : Reader Expr :=
  match base with
  | .name name =>
    if name = Expr.pseudoBase then return .name (Expr.pseudoBase ++ "::" ++ attr)
    else if Expr.isPseudo name then failAt dot (.pseudoAttribute name)
    else return .member base [attr]
  | .member inner path => return .member inner (path ++ [attr])
  | _ => return .member base [attr]

/-- Attribute accesses to the right of an expression. -/
def accesses (base : Expr) : (limit : Nat) → Reader Expr
  | 0 => return base
  | limit + 1 => do
    if ← at? .dot then
      let dot ← advance
      let attr ← expect .identifier
      accesses (← dotted base dot attr.value) limit
    else if ← at? .lbracket then
      accesses (.bracket base (← bracketPath)) limit
    else return base

/-- A primary expression with the attribute accesses that follow it. -/
def suffixed (expr : Reader Expr) : Reader Expr := do
  let base ← primary expr
  accesses base (← get).remaining

/-! ### All levels -/

/-- A negation, or an expression without operators. The operand of `!` and expressions inside stand
one level further in. -/
def unary (negated expr : Reader Expr) : Reader Expr := do
  if ← accept .bang then return .call "Not" [← negated] (some .not)
  else suffixed expr

/-- The rule for `!` with a number of levels left under a nesting limit. -/
def unaryAt (limit : Nat) : (levels : Nat) → Reader Expr
  | 0 => unary (tooDeep limit) (tooDeep limit)
  | levels + 1 =>
    unary (within (unaryAt limit levels)) (within (disjunction (unaryAt limit levels)))

/-- The rule for expressions with a number of levels left under a nesting limit. -/
def expressionAt (limit : Nat) : (levels : Nat) → Reader Expr
  | 0 => tooDeep limit
  | levels + 1 => within (disjunction (unaryAt limit levels))

/-- A rule that is given the levels left in the current state. -/
def atLevel {α : Type} (limit : Nat) (rule : Nat → Reader α) : Reader α := do
  rule (limit - (← get).depth)

/-- An expression. -/
def expression (limit : Nat) : Reader Expr := atLevel limit (expressionAt limit)

end StackScript.Reader
