import StackScript.Text.Blank
import StackScript.Text.Split

/-!
# Layout of scripts

Object literals are reflowed: a small one stays on one line, any other becomes an indented block.
The layout works on the text alone. Characters inside quotes are left alone, and an object that
cannot be divided into properties, or that holds an escaped line feed, is kept as it is.

## Main definitions

* `Layout.mark`: which characters stand inside quotes.
* `Layout.objectSpans`: the outermost objects of a text.
* `Layout.splitProperties`: the properties of the body of an object.
* `Layout.layoutObjects`, `Layout.layout`: the text with its objects reflowed.
-/

namespace StackScript.Layout

open Text

/-! ### Scanning -/

/-- Marks each character that is a quote or stands between quotes. The state is the quote that is
open, and whether the previous character was a backslash inside quotes. -/
def markFrom (quote : Option Char) (escaped : Bool) : List Char → List (Char × Bool)
  | [] => []
  | c :: rest =>
    match quote with
    | some q =>
      (c, true) ::
        if escaped then markFrom quote false rest
        else if c == '\\' then markFrom quote true rest
        else if c == q then markFrom none false rest
        else markFrom quote false rest
    | none =>
      if c == '\'' || c == '"' then (c, true) :: markFrom (some c) false rest
      else (c, false) :: markFrom none false rest

/-- The characters of a text, each with whether it stands inside quotes. -/
def mark (text : List Char) : List (Char × Bool) := markFrom none false text

/-- The spans of outermost objects: `index` counts the characters passed, `depth` the objects that
are open, and `start` is where the outermost of them starts. -/
def spansFrom (index depth start : Nat) : List (Char × Bool) → List (Nat × Nat)
  | [] => []
  | (c, quoted) :: rest =>
    if quoted then spansFrom (index + 1) depth start rest
    else if c == '{' then
      spansFrom (index + 1) (depth + 1) (if depth = 0 then index else start) rest
    else if c == '}' && decide (0 < depth) then
      if depth = 1 then (start, index + 1) :: spansFrom (index + 1) 0 start rest
      else spansFrom (index + 1) (depth - 1) start rest
    else spansFrom (index + 1) depth start rest

/-- Start and end of each outermost object of a text. -/
def objectSpans (text : List Char) : List (Nat × Nat) := spansFrom 0 0 0 (mark text)

/-! ### Properties -/

/-- A property as key and value. -/
abbrev Property := List Char × List Char

/-- Whether a character opens a bracket. -/
def isOpener (c : Char) : Bool := c == '{' || c == '[' || c == '('

/-- Whether a character closes a bracket. -/
def isCloser (c : Char) : Bool := c == '}' || c == ']' || c == ')'

/-- Ends a chunk, given backwards: with a key it is a property, without one it has to be blank. -/
def closeChunk (key : Option (List Char)) (chunk : List Char) : Option (List Property) :=
  let value := trim chunk.reverse
  match key with
  | some key => some [(key, value)]
  | none => if value.isEmpty then some [] else none

/-- The properties of a text: `depth` counts the brackets that are open, `key` is the key of the
property that has begun, and `chunk` holds the characters since the last boundary, backwards. -/
def propertiesFrom (depth : Int) (key : Option (List Char)) (chunk : List Char) :
    List (Char × Bool) → Option (List Property)
  | [] => closeChunk key chunk
  | (c, quoted) :: rest =>
    if quoted then propertiesFrom depth key (c :: chunk) rest
    else if isOpener c then propertiesFrom (depth + 1) key (c :: chunk) rest
    else if isCloser c then propertiesFrom (depth - 1) key (c :: chunk) rest
    else if depth == 0 && c == ':' && key.isNone then
      propertiesFrom depth (some (trim chunk.reverse)) [] rest
    else if depth == 0 && c == ',' then do
      let first ← closeChunk key chunk
      return first ++ (← propertiesFrom depth none [] rest)
    else propertiesFrom depth key (c :: chunk) rest

/-- The properties of the body of an object, divided at its outermost commas. There are none if a
part has no outermost colon. -/
def splitProperties (content : List Char) : Option (List Property) :=
  propertiesFrom 0 none [] (mark content)

/-! ### Reflowing -/

/-- At most this many properties stand on one line. -/
def maxInlineProperties : Nat := 3

/-- A value on one line has at most this many characters. -/
def maxInlineValue : Nat := 60

/-- The properties on one line have together fewer characters than this. -/
def maxInlineBody : Nat := 80

/-- Whether a text holds a backslash before a letter `n`. -/
def holdsEscapedBreak : List Char → Bool
  | [] => false
  | c :: rest => (c == '\\' && rest.head? == some 'n') || holdsEscapedBreak rest

/-- The properties on one line. -/
def oneLine (properties : List Property) : List Char :=
  List.intercalate [',', ' '] (properties.map fun (key, value) => key ++ ':' :: ' ' :: value)

/-- Whether properties stand on one line. -/
def isInline (properties : List Property) : Bool :=
  decide (properties.length ≤ maxInlineProperties) &&
    decide ((oneLine properties).length < maxInlineBody) &&
    properties.all fun (_, value) =>
      !value.contains '{' && !value.contains '[' && decide (value.length ≤ maxInlineValue)

/-- Blanks of a width; none if it is negative. -/
def blanks (width : Int) : List Char := List.replicate width.toNat ' '

/-- A text cut at spans, with `f` applied to the parts inside them; `index` is the start of the
text. -/
def mapSpans (f : List Char → List Char) (index : Nat) (text : List Char) :
    List (Nat × Nat) → List Char
  | [] => text
  | (start, stop) :: spans =>
    text.take (start - index) ++ f ((text.drop (start - index)).take (stop - start)) ++
      mapSpans f stop (text.drop (stop - index)) spans

/-- The layout of one object at a depth, given the layout of the values inside it. -/
def layoutObject (indent depth : Int) (inner : List Char → List Char) (object : List Char) :
    List Char :=
  let content := trim ((object.drop 1).dropLast)
  if content.isEmpty then ['{', '}']
  else
    match splitProperties content with
    | none => object
    | some properties =>
      if properties.any fun (_, value) => holdsEscapedBreak value then object
      else if isInline properties then
        '{' :: ' ' :: oneLine properties ++ [' ', '}']
      else
        let lines := properties.map fun (key, value) =>
          blanks (indent * (depth + 1)) ++ key ++ ':' :: ' ' :: inner value
        '{' :: '\n' :: List.intercalate [',', '\n'] lines ++ '\n' :: blanks (indent * depth) ++
          ['}']

/-- The text with its outermost objects laid out at a depth; `levels` bounds the nesting. -/
def layoutLevels (indent : Int) : (levels : Nat) → (depth : Int) → List Char → List Char
  | 0, _, text => text
  | levels + 1, depth, text =>
    mapSpans (layoutObject indent depth (layoutLevels indent levels (depth + 1))) 0 text
      (objectSpans text)

/-- The text with its outermost objects laid out at a depth. Objects nest less deeply than the text
has characters. -/
def layoutObjects (indent depth : Int) (text : List Char) : List Char :=
  layoutLevels indent text.length depth text

/-- The parts of a text between empty lines. -/
def paragraphs (text : List Char) : List (List Char) := splitAtPair '\n' '\n' text

/-- The layout of a script: every part between empty lines by itself. -/
def layout (indent : Int) (text : List Char) : List Char :=
  let parts := (paragraphs text).map fun part => layoutObjects indent 0 (trim part)
  List.intercalate ['\n', '\n'] parts

end StackScript.Layout
