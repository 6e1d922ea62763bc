import StackScript.Text.Hex
import StackScript.Yaml.Cursor
import StackScript.Yaml.Fault

/-!
# Texts of YAML scalars

A scalar is written plain, between quotes, or as a block of indented lines. Line breaks inside
plain and quoted scalars are folded: a single one counts as a space, and of several in a row the
first one is left out.

## Main definitions

* `Yaml.plainText`: a plain scalar.
* `Yaml.quotedText`: a scalar between single or double quotes.
* `Yaml.blockText`: a literal or folded block.
-/

namespace StackScript.Yaml

open Text

/-- The text that a line break and the breaks after it are folded to. -/
def folded (first : List Char) (more : List Char) : List Char :=
  if first ≠ ['\n'] then first ++ more else if more.isEmpty then [' '] else more

/-! ### Plain scalars -/

/-- Whether a character ends a plain scalar inside brackets. -/
def isFlowMark (c : Char) : Bool :=
  c == ',' || c == '[' || c == ']' || c == '{' || c == '}'

/-- The characters of a plain scalar up to the next blank or indicator. -/
def plainRun (inFlow : Bool) : List Char → List Char
  | [] => []
  | c :: rest =>
    let endsKey := c == ':' &&
      (endsWord rest.head? || (inFlow && rest.head?.any isFlowMark))
    if isWhite c || isBreak c || endsKey || (inFlow && (isFlowMark c || c == '?')) then []
    else c :: plainRun inFlow rest

/-- The line breaks between two parts of a plain scalar, spaces left out; nothing if a mark between
documents follows one of them. -/
def plainBreaks (breaks : List Char) : (fuel : Nat) → Cursor → Option (List Char) × Cursor
  | 0, c => (some breaks, c)
  | fuel + 1, c =>
    match c.head? with
    | none => (some breaks, c)
    | some ch =>
      if ch == ' ' then plainBreaks breaks fuel c.advance
      else if isBreak ch then
        let (text, after) := c.lineBreak
        if after.atDocumentMark then (none, after)
        else plainBreaks (breaks ++ text) fuel after
      else (some breaks, c)

/-- The blanks between two parts of a plain scalar as the text that they stand for, the cursor after
them, and whether they contain a line break. There is no text if the scalar ends here. -/
def plainBlanks (c : Cursor) : List Char × Cursor × Bool :=
  let (spaces, afterSpaces) := c.takeWhile (· == ' ')
  if afterSpaces.head?.any isBreak then
    let (first, afterBreak) := afterSpaces.lineBreak
    if afterBreak.atDocumentMark then ([], afterBreak, true)
    else
      match plainBreaks [] afterBreak.rest.length afterBreak with
      | (some more, after) => (folded first more, after, true)
      | (none, after) => ([], after, true)
  else (spaces, afterSpaces, false)

/-- The parts of a plain scalar after `done`, which is given backwards, and the blanks after it.
Lines of a scalar outside brackets have to be indented by at least `indent`. -/
def plainParts (inFlow : Bool) (indent : Nat) (done blanks : List Char) (broken : Bool) :
    (fuel : Nat) → Cursor → List Char × Cursor × Bool
  | 0, c => (done.reverse, c, broken)
  | fuel + 1, c =>
    let run := if c.head? == some '#' then [] else plainRun inFlow c.rest
    if run.isEmpty then (done.reverse, c, broken)
    else
      let done := run.reverse ++ blanks.reverse ++ done
      let (blanks, after, broken) := plainBlanks (c.move run.length)
      let outdented := !inFlow && decide (after.column < indent)
      if blanks.isEmpty || after.head? == some '#' || outdented then
        (done.reverse, after, broken)
      else plainParts inFlow indent done blanks broken fuel after

/-- The text of a plain scalar, the cursor after it, and whether it is followed by a line break. -/
def plainText (inFlow : Bool) (indent : Nat) (c : Cursor) : List Char × Cursor × Bool :=
  plainParts inFlow indent [] [] false c.rest.length c

/-! ### Quoted scalars -/

/-- The line breaks inside a quoted scalar, blanks left out. -/
def quotedBreaks (breaks : List Char) : (fuel : Nat) → Cursor → Except Fault (List Char × Cursor)
  | 0, _ => .error .malformed
  | fuel + 1, c =>
    if c.atDocumentMark then .error .malformed
    else
      let after := c.skipWhite
      if after.head?.any isBreak then
        let (text, next) := after.lineBreak
        quotedBreaks (breaks ++ text) fuel next
      else .ok (breaks, after)

/-- Blanks inside a quoted scalar as the text that they stand for. -/
def quotedBlanks (c : Cursor) : Except Fault (List Char × Cursor) :=
  let (blanks, after) := c.takeWhile isWhite
  match after.head? with
  | none => .error .malformed
  | some ch =>
    if isBreak ch then do
      let (first, afterBreak) := after.lineBreak
      let (more, next) ← quotedBreaks [] (afterBreak.rest.length + 1) afterBreak
      return (folded first more, next)
    else .ok (blanks, after)

/-- The character that a letter after a backslash stands for. -/
def escapedChar? : Char → Option Char
  | '0' => some '\x00'
  | 'a' => some '\x07'
  | 'b' => some '\x08'
  | 't' => some '\t'
  | '\t' => some '\t'
  | 'n' => some '\n'
  | 'v' => some '\x0b'
  | 'f' => some '\x0c'
  | 'r' => some '\r'
  | 'e' => some '\x1b'
  | ' ' => some ' '
  | '"' => some '"'
  | '\\' => some '\\'
  | '/' => some '/'
  | 'N' => some '\u0085'
  | '_' => some '\u00a0'
  | 'L' => some '\u2028'
  | 'P' => some '\u2029'
  | _ => none

/-- The number of hexadecimal digits after a letter that introduces them. -/
def escapeWidth? : Char → Option Nat
  | 'x' => some 2
  | 'u' => some 4
  | 'U' => some 8
  | _ => none

/-- The character with a number. -/
def codePoint (n : Nat) : Except Fault Char :=
  if 0x7fffffff < n then .error .codePointRange
  else if 0x10ffff < n then .error .codePoint
  else .ok (Char.ofNat n)

/-- The text of an escape, with the cursor after the backslash. -/
def escapeText (c : Cursor) : Except Fault (List Char × Cursor) :=
  match c.head? with
  | none => .error .malformed
  | some ch =>
    match escapedChar? ch, escapeWidth? ch with
    | some escaped, _ => .ok ([escaped], c.advance)
    | none, some width => do
      let digits := c.advance.rest.take width
      match hexNumber? digits with
      | some n =>
        if digits.length < width then .error .malformed
        else return ([← codePoint n], c.move (width + 1))
      | none => .error .malformed
    | none, none =>
      if isBreak ch then
        let (_, after) := c.lineBreak
        quotedBreaks [] (after.rest.length + 1) after
      else .error .malformed

/-- The text of a quoted scalar after `done`, which is given backwards. -/
def quotedParts (double : Bool) (done : List Char) :
    (fuel : Nat) → Cursor → Except Fault (List Char × Cursor)
  | 0, _ => .error .malformed
  | fuel + 1, c =>
    match c.rest with
    | [] => .error .malformed
    | ch :: rest =>
      if isWhite ch || isBreak ch then do
        let (text, after) ← quotedBlanks c
        quotedParts double (text.reverse ++ done) fuel after
      else if double then
        if ch == '"' then .ok (done.reverse, c.advance)
        else if ch == '\\' then do
          let (text, after) ← escapeText c.advance
          quotedParts double (text.reverse ++ done) fuel after
        else quotedParts double (ch :: done) fuel c.advance
      else if ch == '\'' then
        if rest.head? == some '\'' then quotedParts double ('\'' :: done) fuel (c.move 2)
        else .ok (done.reverse, c.advance)
      else quotedParts double (ch :: done) fuel c.advance

/-- The text of a quoted scalar, with the cursor after its first quote. -/
def quotedText (double : Bool) (c : Cursor) : Except Fault (List Char × Cursor) :=
  quotedParts double [] (c.rest.length + 1) c

/-! ### Block scalars -/

/-- What becomes of the line breaks at the end of a block. -/
inductive Chomping where
  | strip
  | clip
  | keep
deriving DecidableEq

/-- The chomping that a sign stands for. -/
def chomping? : Option Char → Option Chomping
  | some '+' => some .keep
  | some '-' => some .strip
  | _ => none

/-- The indentation that a digit stands for. -/
def blockIndent? : Option Char → Except Fault (Option Nat)
  | none => .ok none
  | some c =>
    if c == '0' then .error .malformed
    else if '1' ≤ c ∧ c ≤ '9' then .ok (some (c.toNat - '0'.toNat))
    else .ok none

/-- The signs after the indicator of a block, in either order. -/
def blockHeader (c : Cursor) : Except Fault (Chomping × Option Nat × Cursor) := do
  match chomping? c.head? with
  | some chomping =>
    match ← blockIndent? c.advance.head? with
    | some indent => return (chomping, some indent, c.move 2)
    | none => return (chomping, none, c.advance)
  | none =>
    match ← blockIndent? c.head? with
    | some indent =>
      match chomping? c.advance.head? with
      | some chomping => return (chomping, some indent, c.move 2)
      | none => return (.clip, some indent, c.advance)
    | none => return (.clip, none, c)

/-- The rest of a line that may hold only a comment. -/
def ignoredLine (c : Cursor) : Except Fault Cursor :=
  let after := c.skipSpaces.skipComment
  if endsLine after.head? then .ok after.lineBreak.2 else .error .malformed

/-- The blank lines at the start of a block, and the widest indentation among them. -/
def blockIndentation (breaks : List Char) (widest : Nat) :
    (fuel : Nat) → Cursor → List Char × Nat × Cursor
  | 0, c => (breaks, widest, c)
  | fuel + 1, c =>
    match c.head? with
    | none => (breaks, widest, c)
    | some ch =>
      if ch == ' ' then
        let after := c.advance
        blockIndentation breaks (max widest after.column) fuel after
      else if isBreak ch then
        let (text, after) := c.lineBreak
        blockIndentation (breaks ++ text) widest fuel after
      else (breaks, widest, c)

/-- The cursor after at most as many spaces as lead to a column. -/
def skipIndent (indent : Nat) (c : Cursor) : Cursor :=
  c.move ((c.rest.take (indent - c.column)).takeWhile (· == ' ')).length

/-- The blank lines between two lines of a block. -/
def blockBreaks (indent : Nat) (breaks : List Char) : (fuel : Nat) → Cursor → List Char × Cursor
  | 0, c => (breaks, c)
  | fuel + 1, c =>
    let after := skipIndent indent c
    if after.head?.any isBreak then
      let (text, next) := after.lineBreak
      blockBreaks indent (breaks ++ text) fuel next
    else (breaks, after)

/-- The text between two lines of a block: in a folded block a single line feed between lines that
do not start with a blank counts as a space. -/
def blockJoint (fold : Bool) (lineBreak breaks : List Char) : List Char :=
  if fold && lineBreak == ['\n'] then if breaks.isEmpty then [' '] else []
  else lineBreak

/-- The lines of a block after `done`, which is given backwards: the text, the last line break, the
blank lines after it, and the cursor. -/
def blockLines (fold : Bool) (indent : Nat) (done lastBreak breaks : List Char) :
    (fuel : Nat) → Cursor → List Char × List Char × List Char × Cursor
  | 0, c => (done, lastBreak, breaks, c)
  | fuel + 1, c =>
    if c.column ≠ indent || c.head?.isNone then (done, lastBreak, breaks, c)
    else
      let (line, afterLine) := c.takeWhile fun ch => !isBreak ch
      let done := line.reverse ++ breaks.reverse ++ done
      let (lineBreak, afterBreak) := afterLine.lineBreak
      let (breaks, after) := blockBreaks indent [] (afterBreak.rest.length + 1) afterBreak
      if after.column ≠ indent || after.head?.isNone then (done, lineBreak, breaks, after)
      else
        let foldHere := fold && !(c.head?.any isWhite) && !(after.head?.any isWhite)
        let joint := blockJoint foldHere lineBreak breaks
        blockLines fold indent (joint.reverse ++ done) lineBreak breaks fuel after

/-- The text of a block, with the cursor after its indicator. The block is indented by at least
`least`. -/
def blockText (fold : Bool) (least : Nat) (c : Cursor) : Except Fault (List Char × Cursor) := do
  let (chomping, given, afterHeader) ← blockHeader c
  if !endsToken afterHeader.head? then .error .malformed
  let start ← ignoredLine afterHeader
  let size := start.rest.length + 1
  let (breaks, indent, first) := match given with
    | some width =>
      let indent := least + width - 1
      let (breaks, first) := blockBreaks indent [] size start
      (breaks, indent, first)
    | none =>
      let (breaks, widest, first) := blockIndentation [] 0 size start
      (breaks, max least widest, first)
  let (done, lastBreak, tail, after) := blockLines fold indent [] [] breaks size first
  let ending := match chomping with
    | .strip => []
    | .clip => lastBreak
    | .keep => lastBreak ++ tail
  return (done.reverse ++ ending, after)

end StackScript.Yaml
