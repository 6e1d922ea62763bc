import StackScript.Value.Basic

/-!
# Expressions of a script

An expression denotes a value of the document. Operators are calls of intrinsic functions that
remember how they were written, and declarations are expressions too, although they have a meaning
only on the right of an assignment.

## Main definitions

* `Operator`: the operator signs.
* `BodyKind`: the declarations that consist of one object.
* `Expr`: the expressions; `Expr.kindName` names their forms in messages.
-/

namespace StackScript

/-- The operator signs. -/
inductive Operator where
  | eq
  | ne
  | and
  | or
  | not
deriving DecidableEq

/-- The characters of an operator. -/
def Operator.sign : Operator → String
  | .eq => "=="
  | .ne => "!="
  | .and => "&&"
  | .or => "||"
  | .not => "!"

/-- The operator with the given characters. -/
def Operator.ofSign? (sign : String) : Option Operator :=
  [Operator.eq, .ne, .and, .or, .not].find? (·.sign == sign)

/-- The declarations that consist of one object. -/
inductive BodyKind where
  | parameter
  | output
  | mapping
  | rule
deriving DecidableEq

/-- The keyword of a declaration that consists of one object. -/
def BodyKind.keyword : BodyKind → String
  | .parameter => "Parameter"
  | .output => "Output"
  | .mapping => "Mapping"
  | .rule => "Rule"

/-- The declaration that a keyword introduces, if it consists of one object. -/
def BodyKind.ofKeyword? (word : String) : Option BodyKind :=
  [BodyKind.parameter, .output, .mapping, .rule].find? (·.keyword == word)

/-- An expression.

* `name` is a bare name; the name of a pseudo parameter starts with `AWS::`.
* `member` is attribute access with dots, `bracket` with strings in brackets.
* `call` is a call of an intrinsic function; `operator` tells the sign it was written with.
* `resource`, `body` and `condition` are declarations. -/
inductive Expr where
  | literal (value : Scalar)
  | name (name : String)
  | object (fields : List (String × Expr))
  | array (items : List Expr)
  | member (base : Expr) (path : List String)
  | bracket (base : Expr) (path : List String)
  | call (function : String) (args : List Expr) (operator : Option Operator)
  | resource (type : String) (properties : Option (List (String × Expr)))
      (modifiers : List (String × Expr))
  | body (kind : BodyKind) (fields : List (String × Expr))
  | condition (test : Expr)

namespace Expr

instance : Inhabited Expr := ⟨.literal .null⟩

/-- How names of pseudo parameters start. -/
def pseudoStart : List Char := "AWS::".toList

/-- The name that pseudo parameters are attributes of. -/
def pseudoBase : String := "AWS"

/-- Whether a name is that of a pseudo parameter. -/
def isPseudo (name : String) : Bool := pseudoStart.isPrefixOf name.toList

/-- The name of a pseudo parameter after its start. -/
def pseudoTail (name : String) : String := String.ofList (name.toList.drop pseudoStart.length)

/-- Whether an expression is a string literal. -/
def isString : Expr → Bool
  | .literal (.str _) => true
  | _ => false

/-- Whether an expression is a declaration. -/
def isDeclaration : Expr → Bool
  | .resource .. => true
  | .body .. => true
  | .condition _ => true
  | _ => false

/-- The fields in the body of a declaration, if it has one. -/
def bodyFields? : Expr → Option (List (String × Expr))
  | .body _ fields => some fields
  | .resource _ properties _ => properties
  | _ => none

/-- The expression that the body of a declaration gives for a key. -/
def bodyField? (declaration : Expr) (key : String) : Option Expr :=
  declaration.bodyFields?.bind (·.lookup key)

/-- The name of the form of an expression in messages. -/
def kindName : Expr → String
  | .literal _ => "Literal"
  | .name _ => "Identifier"
  | .object _ => "ObjectLiteral"
  | .array _ => "ArrayLiteral"
  | .member .. => "MemberAccess"
  | .bracket .. => "BracketAccess"
  | .call .. => "FunctionCall"
  | .resource .. => "ResourceDecl"
  | .body kind _ => kind.keyword ++ "Decl"
  | .condition _ => "ConditionDecl"

end Expr

end StackScript
