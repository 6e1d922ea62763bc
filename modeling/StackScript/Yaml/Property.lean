import StackScript.Number.Decimal
import StackScript.Text.Hex
import StackScript.Yaml.Cursor
import StackScript.Yaml.Fault
import StackScript.Yaml.ScalarText
import StackScript.Yaml.Token

/-!
# Anchors, tags and directives

The parts of a YAML text that are neither structure nor scalars: names of anchors and aliases, tags
of nodes, and the directives before a document.

## Main definitions

* `Yaml.anchorName`: the name of an anchor or an alias.
* `Yaml.tagToken`: the tag of a node.
* `Yaml.directiveToken`: a directive with the rest of its line.
-/

namespace StackScript.Yaml

open Number Text

/-- Whether a character may occur in a name: an ASCII letter or digit, a hyphen or an underscore. -/
def isNamePart (c : Char) : Bool :=
  isDigit c || (decide ('a' ≤ c) && decide (c ≤ 'z')) || (decide ('A' ≤ c) && decide (c ≤ 'Z')) ||
    c == '-' || c == '_'

/-- Whether the name of an anchor may end before the given character. -/
def endsAnchor : Option Char → Bool
  | none => true
  | some c =>
    isWhite c || isBreak c || c == '?' || c == ':' || c == ',' || c == ']' || c == '}' ||
      c == '%' || c == '@' || c == '\x60'

/-- The name of an anchor or an alias, with the cursor after its indicator. -/
def anchorName (c : Cursor) : Except Fault (String × Cursor) :=
  let (name, after) := c.takeWhile isNamePart
  if name.isEmpty || !endsAnchor after.head? then .error .malformed
  else .ok (String.ofList name, after)

/-! ### Tags -/

/-- The punctuation that may occur in the address part of a tag. -/
def uriMarks : List Char := "-;/?:@&=+$,_.!~*'()[]".toList

/-- Whether a character stands for itself in the address part of a tag. -/
def isUriChar (c : Char) : Bool := isNamePart c || uriMarks.contains c

/-- The bytes that percent signs with two hexadecimal digits stand for. -/
def uriBytes (bytes : List UInt8) :
    (fuel : Nat) → Cursor → Except Fault (List UInt8 × Cursor)
  | 0, c => .ok (bytes, c)
  | fuel + 1, c =>
    match c.rest with
    | '%' :: high :: low :: _ =>
      match hexNumber? [high, low] with
      | some n => uriBytes (bytes ++ [n.toUInt8]) fuel (c.move 3)
      | none => .error .malformed
    | '%' :: _ => .error .malformed
    | _ => .ok (bytes, c)

/-- The text of escaped bytes. -/
def uriEscapes (c : Cursor) : Except Fault (List Char × Cursor) := do
  let (bytes, after) ← uriBytes [] c.rest.length c
  match String.fromUTF8? ⟨bytes.toArray⟩ with
  | some s => return (s.toList, after)
  | none => .error .malformed

/-- The address part of a tag after `done`. -/
def uriParts (done : List Char) : (fuel : Nat) → Cursor → Except Fault (List Char × Cursor)
  | 0, c => .ok (done, c)
  | fuel + 1, c =>
    match c.head? with
    | some '%' => do
      let (text, after) ← uriEscapes c
      uriParts (done ++ text) fuel after
    | some ch =>
      if isUriChar ch then
        let (run, after) := c.takeWhile isUriChar
        uriParts (done ++ run) fuel after
      else .ok (done, c)
    | none => .ok (done, c)

/-- The address part of a tag. -/
def tagUri (c : Cursor) : Except Fault (String × Cursor) := do
  let (text, after) ← uriParts [] c.rest.length c
  if after.index = c.index then .error .malformed else return (String.ofList text, after)

/-- The handle of a tag: an exclamation mark alone before a space, else two of them with a name
between. -/
def tagHandle (c : Cursor) : Except Fault (String × Cursor) :=
  match c.rest with
  | '!' :: ' ' :: _ => .ok ("!", c.advance)
  | '!' :: _ =>
    let (name, after) := c.advance.takeWhile isNamePart
    if after.head? == some '!' then .ok (String.ofList ('!' :: name ++ ['!']), after.advance)
    else .error .malformed
  | _ => .error .malformed

/-- The handle and the address part of a tag. -/
def tagParts (c : Cursor) : Except Fault (Token × Cursor) :=
  let next := c.advance
  match next.head? with
  | some '<' => do
    let (suffix, after) ← tagUri next.advance
    if after.head? == some '>' then return (.tag none suffix, after.advance)
    else .error .malformed
  | other =>
    if endsWord other then .ok (.tag none "!", next)
    else if (next.rest.takeWhile fun ch => !endsToken (some ch)).contains '!' then do
      let (handle, afterHandle) ← tagHandle c
      let (suffix, after) ← tagUri afterHandle
      return (.tag (some handle) suffix, after)
    else do
      let (suffix, after) ← tagUri next
      return (.tag (some "!") suffix, after)

/-- The tag of a node, which has to be followed by a space or a line break. -/
def tagToken (c : Cursor) : Except Fault (Token × Cursor) := do
  let (token, after) ← tagParts c
  if endsToken after.head? then return (token, after) else .error .malformed

/-! ### Directives -/

/-- A number of a version. -/
def versionNumber (c : Cursor) : Except Fault (Nat × Cursor) :=
  let (digits, after) := c.takeWhile isDigit
  if digits.isEmpty then .error .malformed
  else if maxIntegerDigits < digits.length then .error .numeral
  else .ok (digitsValue digits, after)

/-- The version that a document asks for. -/
def versionDirective (c : Cursor) : Except Fault (Directive × Cursor) := do
  let (major, afterMajor) ← versionNumber c.skipSpaces
  if afterMajor.head? ≠ some '.' then .error .malformed
  let (_, after) ← versionNumber afterMajor.advance
  if endsToken after.head? then return (.version major, after) else .error .malformed

/-- The meaning that a document gives to a handle of tags. -/
def handleDirective (c : Cursor) : Except Fault (Directive × Cursor) := do
  let (handle, afterHandle) ← tagHandle c.skipSpaces
  if afterHandle.head? ≠ some ' ' then .error .malformed
  let (start, after) ← tagUri afterHandle.skipSpaces
  if endsToken after.head? then return (.tagHandle handle start, after) else .error .malformed

/-- A directive with the rest of its line, with the cursor after the percent sign. -/
def directiveToken (c : Cursor) : Except Fault (Token × Cursor) := do
  let (name, afterName) := c.takeWhile isNamePart
  if name.isEmpty || !endsToken afterName.head? then .error .malformed
  let (directive, after) ←
    if name = "YAML".toList then versionDirective afterName
    else if name = "TAG".toList then handleDirective afterName
    else pure (.unknown, (afterName.takeWhile fun ch => !isBreak ch).2)
  return (.directive directive, ← ignoredLine after)

end StackScript.Yaml
