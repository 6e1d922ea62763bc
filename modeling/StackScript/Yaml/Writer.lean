import StackScript.Text.Base64
import StackScript.Value.Basic
import StackScript.Yaml.Style

/-!
# YAML texts of values

Collections are written as blocks, each level indented by two columns, except that a sequence stands
in the column of the mapping around it. Empty collections and scalars follow their key or hyphen on
the same line. A key that is long or takes several lines is marked by a question mark.

## Main definitions

* `Yaml.scalarText`: the text of a scalar.
* `Yaml.isSimpleKey`: whether a key stands on one line with its value.
* `Yaml.valueText`: the text of a value after a key or an indicator.
* `Yaml.write`: the text of a document.
-/

namespace StackScript.Yaml

open Number Text

/-- Blanks of a width. -/
def spaces (n : Nat) : List Char := List.replicate n ' '

/-! ### Scalars -/

/-- The text of a floating-point number: a number with an exponent always has a point. -/
def floatText : Double → List Char
  | .infinite false => ".inf".toList
  | .infinite true => "-.inf".toList
  | .undefined => ".nan".toList
  | x =>
    let cs := x.display
    if cs.contains '.' || !cs.contains 'e' then cs
    else cs.takeWhile (· != 'e') ++ '.' :: '0' :: cs.dropWhile (· != 'e')

/-- The text of a scalar, with further lines indented. -/
def scalarText (indent : Nat) : Scalar → Except DumpFault (List Char)
  | .null => .ok "null".toList
  | .bool true => .ok "true".toList
  | .bool false => .ok "false".toList
  | .int n =>
    match writeInt? n with
    | some digits => .ok digits
    | none => .error .integerTooLong
  | .float x => .ok (floatText x)
  | .str s => .ok (stringText indent s.toList)

/-- The number of bytes on a line of base 64. -/
def bytesPerLine : Nat := 57

/-- The lines of a byte string in base 64. -/
def binaryLines (data : List UInt8) : (fuel : Nat) → List (List Char)
  | 0 => []
  | fuel + 1 =>
    if data.isEmpty then []
    else
      encodeBase64 (data.take bytesPerLine) :: binaryLines (data.drop bytesPerLine) fuel

/-- The text of a byte string: a literal block with its tag. -/
def binaryText (indent : Nat) (data : List UInt8) : List Char :=
  if data.isEmpty then "!!binary \"\"\n".toList
  else
    let lines := binaryLines data data.length
    "!!binary |\n".toList ++ lines.flatMap fun line => spaces indent ++ line ++ ['\n']

/-! ### Keys -/

/-- A key with the length of its tag has fewer characters than this to stand on one line. -/
def maxSimpleKey : Nat := 128

/-- The length of the tag of a scalar. -/
def tagLength : Scalar → Nat
  | .null => 6
  | .bool _ => 6
  | .int _ => 5
  | .float _ => 7
  | .str _ => 5

/-- The characters of a scalar without quotes. -/
def rawText (s : Scalar) : Except DumpFault (List Char) :=
  match s with
  | .str text => .ok text.toList
  | s => scalarText 0 s

/-- Whether a key stands on one line with its value: it is not empty, takes one line, and is not
too long. -/
def isSimpleKey : Value → Except DumpFault Bool
  | .scalar s => do
    let cs ← rawText s
    return decide (tagLength s + cs.length < maxSimpleKey) && !cs.isEmpty && !cs.any isTextBreak
  | .date _ => .ok true
  | .moment _ => .ok true
  | .tuple items => .ok items.isEmpty
  | .list items => .ok items.isEmpty
  | .map entries => .ok entries.isEmpty
  | _ => .ok false

/-! ### Blocks -/

/-- What stands before a value on its line: an indicator of one column, or a simple key with its
colon. -/
inductive Lead where
  | mark
  | key
deriving DecidableEq

/-- Lines of a block in a column, the first of which stands where the text is. -/
def joinLines (column : Nat) (lines : List (List Char)) : List Char :=
  List.intercalate (spaces column) lines

/-- A block of lines in a column: after an indicator it starts on the same line, after a key on the
next one. A block without lines is written as `empty`. -/
def blockOf (lead : Lead) (column : Nat) (empty : String) (lines : List (List Char)) : List Char :=
  if lines.isEmpty then ' ' :: empty.toList ++ ['\n']
  else
    match lead with
    | .mark => ' ' :: joinLines column lines
    | .key => '\n' :: spaces column ++ joinLines column lines

/-- A block of lines in a column, after its tag. -/
def taggedBlock (column : Nat) (tag empty : String) (lines : List (List Char)) : List Char :=
  ' ' :: tag.toList ++ blockOf .key column empty lines

/-- The column of the items of a list: that of a simple key, but inside that of an indicator. -/
def listColumn (column : Nat) : Lead → Nat
  | .mark => column + 2
  | .key => column

/-- An entry of a mapping in a column, given the texts of key and value with what stands before
them. -/
def entryLine (column : Nat) (simple : Bool) (key value : List Char) : List Char :=
  if simple then (key.drop 1).dropLast ++ ':' :: value
  else '?' :: key ++ spaces column ++ ':' :: value

/-- What stands before the value of a key. -/
def valueLead (simple : Bool) : Lead := if simple then .key else .mark

mutual

/-- The text of a value after what stands before it in the given column, up to the end of its last
line. -/
def valueText (lead : Lead) (column : Nat) : Value → Except DumpFault (List Char)
  | .scalar s => do return ' ' :: (← scalarText (column + 2) s) ++ ['\n']
  | .date d => .ok (' ' :: d.text ++ ['\n'])
  | .moment m => .ok (' ' :: m.text ' ' ++ ['\n'])
  | .bytes data => .ok (' ' :: binaryText (column + 2) data)
  | .list items => do
    let inner := listColumn column lead
    return blockOf lead inner "[]" (← listLines inner items)
  | .tuple items => do
    let inner := listColumn column lead
    return blockOf lead inner "[]" (← listLines inner items)
  | .map entries => do
    return blockOf lead (column + 2) "{}" (← mapLines (column + 2) entries)
  | .set items => do
    return taggedBlock (column + 2) "!!set" "{}" (← setLines (column + 2) items)
  | .knot _ body => valueText lead column body
  | .link _ => .ok " null\n".toList

/-- The items of a block in the given column. -/
def listLines (column : Nat) : List Value → Except DumpFault (List (List Char))
  | [] => .ok []
  | item :: rest => do
    let text ← valueText .mark column item
    return ('-' :: text) :: (← listLines column rest)

/-- The entries of a block in the given column. -/
def mapLines (column : Nat) : List (Value × Value) → Except DumpFault (List (List Char))
  | [] => .ok []
  | (key, value) :: rest => do
    let simple ← isSimpleKey key
    let keyText ← valueText .mark column key
    let text ← valueText (valueLead simple) column value
    return entryLine column simple keyText text :: (← mapLines column rest)

/-- The elements of a set as the keys of a block. -/
def setLines (column : Nat) : List Value → Except DumpFault (List (List Char))
  | [] => .ok []
  | key :: rest => do
    let simple ← isSimpleKey key
    let keyText ← valueText .mark column key
    return entryLine column simple keyText " null\n".toList :: (← setLines column rest)

end

/-- Whether a document consists of a plain scalar. -/
def isPlainRoot : Value → Bool
  | .scalar (.str s) => stringStyle s.toList = .plain
  | .scalar _ => true
  | .date _ => true
  | .moment _ => true
  | _ => false

/-- The text of a document. A plain scalar alone needs a mark after it. -/
def write (v : Value) : Except DumpFault (List Char) :=
  match v with
  | .map (entry :: more) => do return joinLines 0 (← mapLines 0 (entry :: more))
  | .list (item :: more) => do return joinLines 0 (← listLines 0 (item :: more))
  | .tuple (item :: more) => do return joinLines 0 (← listLines 0 (item :: more))
  | .set (item :: more) => do
    return "!!set\n".toList ++ joinLines 0 (← setLines 0 (item :: more))
  | v => do
    let text := (← valueText .mark 0 v).drop 1
    return if isPlainRoot v then text ++ "...\n".toList else text

end StackScript.Yaml
