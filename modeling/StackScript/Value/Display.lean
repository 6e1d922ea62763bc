import StackScript.Text.Quoted
import StackScript.Value.Basic

/-!
# Display of values in messages

A value is displayed in the notation of literals: quoted strings, `None`, `True`, brackets around
lists and braces around mappings. A collection inside itself is shown by three dots.

## Main definitions

* `Value.display`: the display of a value.
* `Value.text`: the same without quotes around a string that stands alone.
* `Value.display?`, `Value.text?`: the same, where no integer has too many digits.
-/

namespace StackScript.Value

open Number Text

/-- The display of a scalar. -/
def displayScalar : Scalar → List Char
  | .null => "None".toList
  | .bool true => "True".toList
  | .bool false => "False".toList
  | .int n => intText n
  | .float x => x.display
  | .str s => quotedChars s.toList

private def displayByte (quote : Char) (b : UInt8) : List Char :=
  let c := Char.ofNat b.toNat
  if c == quote || c == '\\' then ['\\', c]
  else if c == '\n' then ['\\', 'n']
  else if c == '\r' then ['\\', 'r']
  else if c == '\t' then ['\\', 't']
  else if 0x20 ≤ b ∧ b < 0x7f then [c]
  else '\\' :: 'x' :: hexLower 2 b.toNat

/-- The display of a byte string: a letter `b`, then the bytes between quotes. -/
def displayBytes (data : List UInt8) : List Char :=
  let quote := displayQuote (data.map fun b => Char.ofNat b.toNat)
  'b' :: quote :: data.flatMap (displayByte quote) ++ [quote]

private def commaSeparated (parts : List (List Char)) : List Char :=
  List.intercalate [',', ' '] parts

private def displayDate (d : Date) : List Char :=
  let parts := [natText d.year, natText d.month, natText d.day]
  "datetime.date(".toList ++ commaSeparated parts ++ [')']

private def displayOffset (minutes : Int) : List Char :=
  if minutes = 0 then "datetime.timezone.utc".toList
  else
    let seconds := minutes * 60
    let delta :=
      if seconds < 0 then
        commaSeparated ["days=-1".toList, "seconds=".toList ++ intText (86400 + seconds)]
      else "seconds=".toList ++ intText seconds
    "datetime.timezone(datetime.timedelta(".toList ++ delta ++ "))".toList

private def displayMoment (m : Moment) : List Char :=
  let fields := [m.date.year, m.date.month, m.date.day, m.hour, m.minute] ++
    (if m.second = 0 ∧ m.microsecond = 0 then []
     else if m.microsecond = 0 then [m.second] else [m.second, m.microsecond])
  let zone := match m.offset with
    | some minutes => ["tzinfo=".toList ++ displayOffset minutes]
    | none => []
  "datetime.datetime(".toList ++ commaSeparated (fields.map natText ++ zone) ++ [')']

private def ellipsis : Value → List Char
  | .map _ => "{...}".toList
  | .tuple _ => "(...)".toList
  | .set _ => "set(...)".toList
  | _ => "[...]".toList

mutual

/-- The display of a value inside the knots of `enclosing`. -/
def displayIn (enclosing : List (Nat × List Char)) : Value → List Char
  | .scalar s => displayScalar s
  | .list items => '[' :: commaSeparated (displayAll enclosing items) ++ [']']
  | .map entries => '{' :: commaSeparated (displayEntries enclosing entries) ++ ['}']
  | .bytes data => displayBytes data
  | .tuple [item] => '(' :: displayIn enclosing item ++ [',', ')']
  | .tuple items => '(' :: commaSeparated (displayAll enclosing items) ++ [')']
  | .set [] => "set()".toList
  | .set items => '{' :: commaSeparated (displayAll enclosing items) ++ ['}']
  | .date d => displayDate d
  | .moment m => displayMoment m
  | .knot label body =>
    match enclosing.lookup label with
    | some dots => dots
    | none => displayIn ((label, ellipsis body) :: enclosing) body
  | .link label => (enclosing.lookup label).getD "[...]".toList

/-- The displays of the items of a list. -/
def displayAll (enclosing : List (Nat × List Char)) : List Value → List (List Char)
  | [] => []
  | item :: rest => displayIn enclosing item :: displayAll enclosing rest

/-- The displays of the entries of a mapping. -/
def displayEntries (enclosing : List (Nat × List Char)) :
    List (Value × Value) → List (List Char)
  | [] => []
  | (key, value) :: rest =>
    (displayIn enclosing key ++ ':' :: ' ' :: displayIn enclosing value) ::
      displayEntries enclosing rest

end

mutual

/-- Whether no integer in a value has too many digits to be written. -/
def isWritable : Value → Bool
  | .scalar (.int n) => (writeInt? n).isSome
  | .list items => areWritable items
  | .map entries => areWritableEntries entries
  | .tuple items => areWritable items
  | .set items => areWritable items
  | .knot _ body => isWritable body
  | _ => true

/-- Whether `isWritable` holds of every item. -/
def areWritable : List Value → Bool
  | [] => true
  | item :: rest => isWritable item && areWritable rest

/-- Whether `isWritable` holds of every key and every value. -/
def areWritableEntries : List (Value × Value) → Bool
  | [] => true
  | (key, value) :: rest => isWritable key && isWritable value && areWritableEntries rest

end

/-- The display of a value. -/
def display (value : Value) : String := String.ofList (displayIn [] value)

/-- The text of a value: a string is itself, a point in time is written with digits, and everything
else is displayed. -/
def text : Value → String
  | .str s => s
  | .date d => String.ofList d.text
  | .moment m => String.ofList (m.text ' ')
  | value => value.display

/-- The display of a value, if all its integers can be written. -/
def display? (value : Value) : Option String :=
  if value.isWritable then some value.display else none

/-- The text of a value, if all its integers can be written. -/
def text? (value : Value) : Option String := if value.isWritable then some value.text else none

end StackScript.Value
