import StackScript.Number.Numeral
import StackScript.Text.Base64
import StackScript.Value.Basic
import StackScript.Yaml.Schema

/-!
# Values of YAML scalars

The value that the text of a scalar denotes when it has a given type. A text may have a type
because of a tag, so it need not have the form of that type.

## Main definitions

* `Yaml.intValue`, `Yaml.floatValue`: numbers, also in base sixty.
* `Yaml.scalarValue`: the value of a scalar of any type.
-/

namespace StackScript.Yaml

open Number Text

private def orFault {α : Type} (fault : Fault) : Option α → Except Fault α
  | some a => .ok a
  | none => .error fault

/-- The integer of a numeral without sign and underscores. -/
def unsignedIntValue (cs : List Char) : Except Fault Int :=
  match cs with
  | [] => .error .emptyNumeral
  | '0' :: 'b' :: rest => orFault .numeral (readInteger? 2 rest)
  | '0' :: 'x' :: rest => orFault .numeral (readInteger? 16 rest)
  | ['0'] => .ok 0
  | '0' :: _ => orFault .numeral (readInteger? 8 cs)
  | cs =>
    if cs.contains ':' then do
      let digits ← (splitAtChar ':' cs).mapM fun place => orFault .numeral (readInteger? 10 place)
      return digits.foldl (fun value digit => 60 * value + digit) 0
    else orFault .numeral (readInteger? 10 cs)

/-- The integer that a text denotes. -/
def intValue (text : List Char) : Except Fault Int := do
  let cs := text.filter (· != '_')
  if cs.isEmpty then .error .emptyNumeral
  let (negative, unsigned) := Decimal.splitSign cs
  let size ← unsignedIntValue unsigned
  return if negative then -size else size

/-- The sum of the places of a number in base sixty, from the last to the first, where `weight` is
the weight of the next one. -/
def sumPlaces (value : Double) (weight : Nat) : List Double → Except Fault Double
  | [] => .ok value
  | digit :: more =>
    let scale := Double.ofInt weight
    if scale.isFinite then sumPlaces (value.add (digit.mul scale)) (60 * weight) more
    else .error .magnitude

/-- The number of a numeral in small letters without sign and underscores. -/
def unsignedFloatValue (cs : List Char) : Except Fault Double :=
  if cs = ".inf".toList then .ok (.infinite false)
  else if cs = ".nan".toList then .ok .undefined
  else if cs.contains ':' then do
    let digits ← (splitAtChar ':' cs).mapM fun place => orFault .numeral (readReal? place)
    sumPlaces (Double.signedZero false) 1 digits.reverse
  else orFault .numeral (readReal? cs)

/-- The floating-point number that a text denotes. -/
def floatValue (text : List Char) : Except Fault Double := do
  let cs := lower (text.filter (· != '_'))
  if cs.isEmpty then .error .emptyNumeral
  let (negative, unsigned) := Decimal.splitSign cs
  let size ← unsignedFloatValue unsigned
  return if negative then size.neg else size

/-- The truth value that a word denotes. -/
def boolValue (text : List Char) : Except Fault Bool :=
  match String.ofList (lower text) with
  | "yes" => .ok true
  | "true" => .ok true
  | "on" => .ok true
  | "no" => .ok false
  | "false" => .ok false
  | "off" => .ok false
  | _ => .error .truthValue

/-- The point in time that a text denotes. -/
def timeValue (text : List Char) : Except Fault Value :=
  match TimeText.read? (dropFinalBreak text) with
  | none => .error .timestamp
  | some t =>
    match t.clock with
    | none => Value.date <$> orFault .calendar t.date?
    | some clock => Value.moment <$> orFault .calendar (t.moment? clock)

/-- The bytes that a text denotes. -/
def binaryValue (text : List Char) : Except Fault (List UInt8) :=
  if text.all fun c => decide (c.toNat < 128) then orFault .malformed (decodeBase64? text)
  else .error .malformed

/-- The value of a scalar of a type. Types of collections have no scalars. -/
def scalarValue (tag : Tag) (text : List Char) : Except Fault Value :=
  match tag with
  | .null => .ok .null
  | .bool => Value.bool <$> boolValue text
  | .int => Value.int <$> intValue text
  | .float => (fun x => .scalar (.float x)) <$> floatValue text
  | .binary => Value.bytes <$> binaryValue text
  | .timestamp => timeValue text
  | .str => .ok (.str (String.ofList text))
  | _ => .error .malformed

end StackScript.Yaml
