import StackScript.Text.Hex
import StackScript.Value.Basic

/-!
# JSON texts of values

Objects and arrays take a line per entry, indented by two spaces for each level; empty ones stand on
one line. Only quotes, backslashes and control characters are escaped. Keys that are no strings are
written as the text of their value.

## Main definitions

* `Json.string`: a string between quotes.
* `Json.write`: the text of a value.
-/

namespace StackScript.Json

open Number Text

/-- One character of a string. -/
def stringChar (c : Char) : List Char :=
  match c with
  | '"' => ['\\', '"']
  | '\\' => ['\\', '\\']
  | '\n' => ['\\', 'n']
  | '\r' => ['\\', 'r']
  | '\t' => ['\\', 't']
  | '\x08' => ['\\', 'b']
  | '\x0c' => ['\\', 'f']
  | c => if c.toNat < 0x20 then '\\' :: 'u' :: hexLower 4 c.toNat else [c]

/-- A string between quotes. -/
def string (cs : List Char) : List Char := '"' :: cs.flatMap stringChar ++ ['"']

/-- A floating-point number. -/
def float : Double → List Char
  | .infinite false => "Infinity".toList
  | .infinite true => "-Infinity".toList
  | .undefined => "NaN".toList
  | x => x.display

/-- An integer. -/
def int (n : Int) : Except DumpFault (List Char) :=
  match writeInt? n with
  | some digits => .ok digits
  | none => .error .integerTooLong

/-- The characters of a scalar that is no string. -/
def plainScalar : Scalar → Except DumpFault (List Char)
  | .null => .ok "null".toList
  | .bool true => .ok "true".toList
  | .bool false => .ok "false".toList
  | .int n => int n
  | .float x => .ok (float x)
  | .str s => .ok s.toList

/-- A scalar. -/
def scalar (s : Scalar) : Except DumpFault (List Char) :=
  match s with
  | .str s => .ok (string s.toList)
  | s => plainScalar s

/-- A key between quotes. -/
def key : Value → Except DumpFault (List Char)
  | .scalar s => string <$> plainScalar s
  | _ => .error .noNotation

/-- A line feed and the indentation of a level. -/
def newline (level : Nat) : List Char := '\n' :: List.replicate (2 * level) ' '

/-- Lines on the level after the given one, between brackets. -/
def block (opening closing : Char) (level : Nat) (lines : List (List Char)) : List Char :=
  match lines with
  | [] => [opening, closing]
  | lines =>
    opening :: newline (level + 1) ++ List.intercalate (',' :: newline (level + 1)) lines ++
      newline level ++ [closing]

mutual

/-- The text of a value on a level. -/
def value (level : Nat) : Value → Except DumpFault (List Char)
  | .scalar s => scalar s
  | .list items => do return block '[' ']' level (← arrayItems (level + 1) items)
  | .tuple items => do return block '[' ']' level (← arrayItems (level + 1) items)
  | .map entries => do return block '{' '}' level (← objectEntries (level + 1) entries)
  | .knot _ body => value level body
  | _ => .error .noNotation

/-- The texts of the items of an array. -/
def arrayItems (level : Nat) : List Value → Except DumpFault (List (List Char))
  | [] => .ok []
  | first :: rest => do
    let text ← value level first
    return text :: (← arrayItems level rest)

/-- The texts of the entries of an object. -/
def objectEntries (level : Nat) : List (Value × Value) → Except DumpFault (List (List Char))
  | [] => .ok []
  | (k, first) :: rest => do
    let name ← key k
    let text ← value level first
    return (name ++ ':' :: ' ' :: text) :: (← objectEntries level rest)

end

/-- The text of a document, with a line feed at the end. -/
def write (v : Value) : Except DumpFault (List Char) := do return (← value 0 v) ++ ['\n']

end StackScript.Json
