import StackScript.Number.Decimal
import StackScript.Text.Hex
import StackScript.Text.Split
import StackScript.Yaml.Timestamp

/-!
# Types of YAML scalars

A tag tells the type of a node. A plain scalar without a tag has the type that its text has the
form of, and is a string if it has no such form.

## Main definitions

* `Yaml.ShortForm`: the tags that stand for intrinsic functions.
* `Yaml.Tag`: the types of nodes.
* `Yaml.implicitTag`: the type of a plain scalar.
* `Yaml.isPlainString`: whether a string can stand plain and still be read as a string.
-/

namespace StackScript.Yaml

open Number Text

/-- The tags that stand for intrinsic functions. -/
inductive ShortForm where
  | ref
  | condition
  | getAtt
  | getAZs
  | function (name : String)
deriving DecidableEq

/-- The functions whose tag is their name. -/
def functionTags : List String :=
  ["Equals", "If", "Join", "Sub", "Select", "Split", "And", "Or", "Not", "FindInMap", "Base64",
    "Cidr", "ImportValue"]

/-- The short form with the given name. -/
def ShortForm.ofName? (name : String) : Option ShortForm :=
  match name with
  | "Ref" => some .ref
  | "Condition" => some .condition
  | "GetAtt" => some .getAtt
  | "GetAZs" => some .getAZs
  | name => if functionTags.contains name then some (.function name) else none

/-- The type of a node. -/
inductive Tag where
  | null
  | bool
  | int
  | float
  | binary
  | timestamp
  | omap
  | pairs
  | set
  | str
  | seq
  | map
  | merge
  | value
  | short (form : ShortForm)
  | unknown
deriving DecidableEq

namespace Tag

/-- How the tags of the standard types start. -/
def standardStart : List Char := "tag:yaml.org,2002:".toList

/-- The standard type with the given name. -/
def ofName : String → Tag
  | "null" => .null
  | "bool" => .bool
  | "int" => .int
  | "float" => .float
  | "binary" => .binary
  | "timestamp" => .timestamp
  | "omap" => .omap
  | "pairs" => .pairs
  | "set" => .set
  | "str" => .str
  | "seq" => .seq
  | "map" => .map
  | "merge" => .merge
  | "value" => .value
  | _ => .unknown

/-- The type that a tag written in full stands for. -/
def ofText (text : String) : Tag :=
  let cs := text.toList
  if standardStart.isPrefixOf cs then ofName (String.ofList (cs.drop standardStart.length))
  else
    match cs with
    | '!' :: name =>
      match ShortForm.ofName? (String.ofList name) with
      | some form => .short form
      | none => .unknown
    | _ => .unknown

end Tag

/-! ### Forms of plain scalars -/

/-- The words for truth values. -/
def boolWords : List String :=
  ["yes", "Yes", "YES", "no", "No", "NO", "true", "True", "TRUE", "false", "False", "FALSE", "on",
    "On", "ON", "off", "Off", "OFF"]

/-- The signs that have a type of their own, which has no values. -/
def reservedSigns : List String := ["!", "&", "*"]

/-- The words for null. -/
def nullWords : List String := ["~", "null", "Null", "NULL"]

/-- Whether a character is a digit or an underscore. -/
def isDigitOrBar (c : Char) : Bool := isDigit c || c == '_'

/-- A digit, then digits and underscores. -/
def isDigitRun : List Char → Bool
  | [] => false
  | c :: rest => isDigit c && rest.all isDigitOrBar

/-- A digit that is not zero, then digits and underscores. -/
def isCount (cs : List Char) : Bool := isDigitRun cs && cs.head? != some '0'

/-- One or two digits below sixty. -/
def isSixtieth : List Char → Bool
  | [a] => isDigit a
  | [a, b] => isDigit a && decide (a ≤ '5') && isDigit b
  | _ => false

/-- A number in base sixty: a first place that satisfies `first`, then places below sixty, each
after a colon. -/
def isSexagesimal (first : List Char → Bool) (cs : List Char) : Bool :=
  match splitAtChar ':' cs with
  | place :: next :: more => first place && (next :: more).all isSixtieth
  | _ => false

/-- An exponent with a sign, or nothing. -/
def isExponent : List Char → Bool
  | [] => true
  | mark :: sign :: digits =>
    (mark == 'e' || mark == 'E') && (sign == '+' || sign == '-') && !digits.isEmpty &&
      digits.all isDigit
  | _ => false

private def nonEmptyAll (p : Char → Bool) (cs : List Char) : Bool := !cs.isEmpty && cs.all p

/-- Whether an unsigned text has the form of an integer. -/
def isUnsignedInt (cs : List Char) : Bool :=
  match cs with
  | '0' :: 'b' :: rest => nonEmptyAll (fun c => c == '0' || c == '1' || c == '_') rest
  | '0' :: 'x' :: rest => nonEmptyAll (fun c => (hexDigit? c).isSome || c == '_') rest
  | ['0'] => true
  | '0' :: rest => rest.all fun c => (decide ('0' ≤ c) && decide (c ≤ '7')) || c == '_'
  | cs => isCount cs || isSexagesimal isCount cs

/-- Whether a text has the form of an integer. -/
def isInt (cs : List Char) : Bool := isUnsignedInt (Decimal.splitSign cs).2

/-- Whether an unsigned text has the form of a number with a point: digits before the point in base
ten or sixty. -/
def isUnsignedFloat (cs : List Char) : Bool :=
  let whole := cs.takeWhile (· != '.')
  match cs.drop whole.length with
  | '.' :: fraction =>
    (isDigitRun whole && isExponent (fraction.dropWhile isDigitOrBar)) ||
      (isSexagesimal isDigitRun whole && fraction.all isDigitOrBar)
  | _ => false

/-- Whether a text has the form of a floating-point number. -/
def isFloat (cs : List Char) : Bool :=
  let unsigned := (Decimal.splitSign cs).2
  isUnsignedFloat unsigned ||
    [".inf", ".Inf", ".INF"].contains (String.ofList unsigned) ||
    [".nan", ".NaN", ".NAN"].contains (String.ofList cs) ||
    match cs with
    | '.' :: fraction =>
      isDigitRun (fraction.takeWhile isDigitOrBar) &&
        isExponent (fraction.dropWhile isDigitOrBar)
    | _ => false

/-- A text without a line feed at its end. -/
def dropFinalBreak (cs : List Char) : List Char :=
  if cs.getLast? = some '\n' then cs.dropLast else cs

/-- The type of a scalar by the form of its text. A line feed at the end does not count. -/
def implicitTag (text : List Char) : Tag :=
  if text.isEmpty then .null
  else
    let cs := dropFinalBreak text
    let word := String.ofList cs
    if boolWords.contains word then .bool
    else if isFloat cs then .float
    else if isInt cs then .int
    else if word = "<<" then .merge
    else if nullWords.contains word then .null
    else if word = "=" then .value
    else if reservedSigns.contains word then .unknown
    else .str

/-- Whether a string can stand plain: its text has no other form, and is no point in time. -/
def isPlainString (text : List Char) : Bool :=
  implicitTag text == .str && !TimeText.isStandard (dropFinalBreak text)

end StackScript.Yaml
