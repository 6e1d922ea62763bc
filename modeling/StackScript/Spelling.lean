import StackScript.Number.Shortest
import StackScript.Template.Basic
import StackScript.Token.Lexer

/-!
# Spelling of templates

The script of a template, each statement on a line of its own. Calls that remember an operator are
written with it, and operands are put into parentheses where they bind less tightly than their
place asks for. A template made by hand may hold operators without the operands they need; those
have no spelling.

## Main definitions

* `quoteString`, `spellKey`, `isBareName`: strings, keys and names.
* `spellNumber`: numbers in positional notation.
* `Expr.precedence`: how tightly the spelling of an expression binds.
* `Expr.spell`, `Statement.spell`, `Template.spell`: the script.
-/

namespace StackScript

open Number Text

/-! ### Words -/

/-- The spelling of one character of a string. -/
def escapeChar (c : Char) : List Char :=
  match c with
  | '\\' => ['\\', '\\']
  | '\'' => ['\\', '\'']
  | '\n' => ['\\', 'n']
  | '\t' => ['\\', 't']
  | '\r' => ['\\', 'r']
  | c => [c]

/-- A string between single quotes. -/
def quoteString (cs : List Char) : List Char := '\'' :: cs.flatMap escapeChar ++ ['\'']

/-- Whether a text is one identifier. -/
def isIdentifier : List Char → Bool
  | [] => false
  | c :: rest => isIdentifierStart c && rest.all isIdentifierPart

/-- The spelling of a key or of a declared name: bare if it is an identifier. -/
def spellKey (key : List Char) : List Char := if isIdentifier key then key else quoteString key

/-- The identifiers that do not stand for a reference when they are written bare. -/
def reservedNames : List String :=
  ["true", "false", "null", Expr.pseudoBase] ++ declarationKeywords

/-- Whether a name written bare is read as a reference to that name. -/
def isBareName (name : String) : Bool :=
  isIdentifier name.toList && !reservedNames.contains name

/-- Whether a resource type can be written without quotes. -/
def isBareType (type : List Char) : Bool := (splitAtPair ':' ':' type).all isIdentifier

/-! ### Scalars -/

/-- Why something has no spelling. -/
inductive SpellFault where
  | integerTooLong
  | missingOperand
  | operandCount
  | notAComparison
  | noSpelling
deriving DecidableEq

/-- The spelling of an integer. -/
def spellInt (n : Int) : Except SpellFault (List Char) :=
  match writeInt? n with
  | some digits => .ok digits
  | none => .error .integerTooLong

/-- The spelling of a scalar. -/
def spellScalar : Scalar → Except SpellFault (List Char)
  | .null => .ok "null".toList
  | .bool true => .ok "true".toList
  | .bool false => .ok "false".toList
  | .int n => spellInt n
  | .float x => .ok x.fixedPoint
  | .str s => .ok (quoteString s.toList)

/-- The spelling of a number where a truth value counts as one too. -/
def spellNumber : Scalar → Except SpellFault (List Char)
  | .bool true => .ok "True".toList
  | .bool false => .ok "False".toList
  | value => spellScalar value

/-! ### Expressions -/

namespace Expr

/-- How tightly the spelling of an expression binds, from `||` with one to atoms with five. -/
def precedence : Expr → Nat
  | .call _ _ (some .or) => 1
  | .call _ _ (some .and) => 2
  | .call _ _ (some .eq) => 3
  | .call _ _ (some .ne) => 3
  | .call _ _ (some .not) => 4
  | _ => 5

/-- An operand in a place that asks for a precedence, in parentheses if it binds less tightly. -/
def parenthesize (place : Nat) (operand : Expr) (text : List Char) : List Char :=
  if operand.precedence < place then '(' :: text ++ [')'] else text

/-- The spelling of a bare name. -/
def spellName (name : String) : List Char :=
  if isPseudo name then pseudoBase.toList ++ '.' :: (pseudoTail name).toList
  else name.toList

/-- Texts with commas between them. -/
def commas (parts : List (List Char)) : List Char := List.intercalate [',', ' '] parts

/-- Texts with commas between them, in braces. -/
def braces (fields : List (List Char)) : List Char :=
  match fields with
  | [] => ['{', '}']
  | fields => '{' :: ' ' :: commas fields ++ [' ', '}']

mutual

/-- The spelling of an expression. -/
def spell : Expr → Except SpellFault (List Char)
  | .literal value => spellScalar value
  | .name x => .ok (spellName x)
  | .object fields => do return braces (← spellFields fields)
  | .array items => do return '[' :: commas (← spellAll items) ++ [']']
  | .member base path => do
    let text ← spell base
    return parenthesize 5 base text ++ '.' :: (".".intercalate path).toList
  | .bracket base path => do
    let text ← spell base
    return parenthesize 5 base text ++
      '[' :: commas (path.map fun segment => quoteString segment.toList) ++ [']']
  | .call _ args (some .not) =>
    match args with
    | [] => .error .missingOperand
    | operand :: _ => do return '!' :: parenthesize 4 operand (← spell operand)
  | .call _ args (some .ne) =>
    match args with
    | [] => .error .missingOperand
    | .call _ [left, right] _ :: _ => do
      let leftText ← spell left
      let rightText ← spell right
      return parenthesize 4 left leftText ++ " != ".toList ++ parenthesize 4 right rightText
    | .call _ _ _ :: _ => .error .operandCount
    | _ :: _ => .error .notAComparison
  | .call _ args (some .eq) =>
    match args with
    | [left, right] => do
      let leftText ← spell left
      let rightText ← spell right
      return parenthesize 4 left leftText ++ " == ".toList ++ parenthesize 4 right rightText
    | _ => .error .operandCount
  | .call _ args (some .and) => do
    return List.intercalate " && ".toList (← spellOperands 3 args)
  | .call _ args (some .or) => do
    return List.intercalate " || ".toList (← spellOperands 2 args)
  | .call function args none => do
    return function.toList ++ '(' :: commas (← spellAll args) ++ [')']
  | .resource type properties modifiers => do
    let typeText := if isBareType type.toList then type.toList else quoteString type.toList
    let body ← match properties with
      | some fields => do pure (' ' :: braces (← spellFields fields))
      | none => pure []
    let attributes ← spellModifiers modifiers
    return "Resource ".toList ++ typeText ++ body ++ attributes
  | .body kind fields => do
    return kind.keyword.toList ++ ' ' :: braces (← spellFields fields)
  | .condition test => do return "Condition ".toList ++ (← spell test)

/-- The spellings of expressions in order. -/
def spellAll : List Expr → Except SpellFault (List (List Char))
  | [] => .ok []
  | first :: others => do
    let text ← spell first
    return text :: (← spellAll others)

/-- The spellings of operands that stand in equal places. -/
def spellOperands (place : Nat) : List Expr → Except SpellFault (List (List Char))
  | [] => .ok []
  | first :: others => do
    let text ← spell first
    return parenthesize place first text :: (← spellOperands place others)

/-- The spellings of the properties of an object. -/
def spellFields : List (String × Expr) → Except SpellFault (List (List Char))
  | [] => .ok []
  | (key, first) :: others => do
    let text ← spell first
    return (spellKey key.toList ++ ':' :: ' ' :: text) :: (← spellFields others)

/-- The spelling of the modifiers of a resource, each after a space. -/
def spellModifiers : List (String × Expr) → Except SpellFault (List Char)
  | [] => .ok []
  | (modifier, first) :: others => do
    let text ← spell first
    return ' ' :: modifier.toList ++ '(' :: text ++ ')' :: (← spellModifiers others)

end

end Expr

/-! ### Statements and templates -/

/-- The spelling of a statement. -/
def Statement.spell : Statement → Except SpellFault (List Char)
  | .header kind value => do return kind.keyword.toList ++ ' ' :: (← value.spell)
  | .assign name value _ => do return spellKey name.toList ++ " = ".toList ++ (← value.spell)

/-- The spelling of a template, with an empty line between statements. -/
def Template.spell (t : Template) : Except SpellFault (List Char) := do
  return List.intercalate ['\n', '\n'] (← t.statements.mapM Statement.spell)

/-- The spelling of a piece of a template; a modifier has none by itself. -/
def Fragment.spell : Fragment → Except SpellFault (List Char)
  | .template t => t.spell
  | .statement s => s.spell
  | .modifier .. => .error .noSpelling
  | .expr e => e.spell

/-- How tightly the spelling of a piece of a template binds. -/
def Fragment.precedence : Fragment → Nat
  | .expr e => e.precedence
  | _ => 5

end StackScript
