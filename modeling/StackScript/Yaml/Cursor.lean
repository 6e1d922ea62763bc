/-!
# Positions in a YAML text

A cursor holds the rest of a text with its position. Lines end at a line feed, a carriage return,
both together, a next-line character or one of the two separators of Unicode.

## Main definitions

* `Yaml.isAllowed`: the characters that a YAML text may hold.
* `Yaml.Cursor`: the rest of a text with its index, line and column.
* `Yaml.Cursor.lineBreak`: the line break at a cursor.
* `Yaml.endsLine`, `Yaml.endsToken`, `Yaml.endsWord`: what may follow the end of something.
-/

namespace StackScript.Yaml

/-- Whether a character may occur in a YAML text. -/
def isAllowed (c : Char) : Bool :=
  let n := c.toNat
  c == '\t' || c == '\n' || c == '\r' || (decide (0x20 ≤ n) && decide (n ≤ 0x7e)) || n == 0x85 ||
    (decide (0xa0 ≤ n) && decide (n ≤ 0xfffd)) || decide (0x10000 ≤ n)

/-- Whether a character ends a line. -/
def isBreak (c : Char) : Bool :=
  c == '\n' || c == '\r' || c == '\u0085' || c == '\u2028' || c == '\u2029'

/-- Whether a character is a space or a tab. -/
def isWhite (c : Char) : Bool := c == ' ' || c == '\t'

/-- Whether a line ends before the given character. -/
def endsLine : Option Char → Bool
  | none => true
  | some c => isBreak c

/-- Whether a name or a tag may end before the given character. -/
def endsToken : Option Char → Bool
  | none => true
  | some c => c == ' ' || isBreak c

/-- Whether a word may end before the given character. -/
def endsWord : Option Char → Bool
  | none => true
  | some c => isWhite c || isBreak c

/-- The mark that may stand at the start of a text and has no width. -/
def byteOrderMark : Char := '\ufeff'

/-- The rest of a text with its position. -/
structure Cursor where
  rest : List Char
  index : Nat := 0
  line : Nat := 0
  column : Nat := 0

namespace Cursor

/-- The next character. -/
def head? (c : Cursor) : Option Char := c.rest.head?

/-- The cursor after the next character. -/
def advance (c : Cursor) : Cursor :=
  match c.rest with
  | [] => c
  | ch :: rest =>
    if isBreak ch && !(ch == '\r' && rest.head? == some '\n') then
      ⟨rest, c.index + 1, c.line + 1, 0⟩
    else if ch == byteOrderMark then ⟨rest, c.index + 1, c.line, c.column⟩
    else ⟨rest, c.index + 1, c.line, c.column + 1⟩

/-- The cursor after `n` characters. -/
def move (c : Cursor) : Nat → Cursor
  | 0 => c
  | n + 1 => c.advance.move n

/-- The characters from the cursor on that satisfy `p`, and the cursor after them. -/
def takeWhile (p : Char → Bool) (c : Cursor) : List Char × Cursor :=
  let run := c.rest.takeWhile p
  (run, c.move run.length)

/-- The cursor after spaces. -/
def skipSpaces (c : Cursor) : Cursor := (c.takeWhile (· == ' ')).2

/-- The cursor after spaces and tabs. -/
def skipWhite (c : Cursor) : Cursor := (c.takeWhile isWhite).2

/-- The cursor at the end of its line if a comment starts here. -/
def skipComment (c : Cursor) : Cursor :=
  if c.head? == some '#' then (c.takeWhile fun ch => !isBreak ch).2 else c

/-- The line break at the cursor, as the text that stands for it, and the cursor after it. -/
def lineBreak (c : Cursor) : List Char × Cursor :=
  match c.rest with
  | '\r' :: '\n' :: _ => (['\n'], c.move 2)
  | ch :: _ =>
    if ch == '\u2028' || ch == '\u2029' then ([ch], c.advance)
    else if isBreak ch then (['\n'], c.advance)
    else ([], c)
  | [] => ([], c)

/-- Whether a word of three equal characters stands at the cursor. -/
def atTriple (mark : Char) (c : Cursor) : Bool :=
  match c.rest with
  | a :: b :: d :: rest => a == mark && b == mark && d == mark && endsWord rest.head?
  | _ => false

/-- Whether a mark between documents stands at the cursor. -/
def atDocumentMark (c : Cursor) : Bool := c.atTriple '-' || c.atTriple '.'

end Cursor

end StackScript.Yaml
