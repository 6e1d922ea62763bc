import StackScript.Text.Hex
import StackScript.Yaml.Cursor
import StackScript.Yaml.Schema

/-!
# Styles of YAML strings

How a string is written: plain where that reads back as the same string, else between single
quotes, else between double quotes with escapes.

## Main definitions

* `Yaml.Style`, `Yaml.stringStyle`: the styles, and the one of a string.
* `Yaml.singleQuoted`, `Yaml.doubleQuoted`: strings between quotes.
-/

namespace StackScript.Yaml

open Text

/-- Whether a character starts a new line in the text of a scalar. -/
def isTextBreak (c : Char) : Bool := isBreak c && c != '\r'

/-- Whether a character needs an escape. -/
def isSpecial (c : Char) : Bool :=
  let n := c.toNat
  !(c == '\n' || (decide (0x20 ≤ n) && decide (n ≤ 0x7e)) || n == 0x85 ||
    (decide (0xa0 ≤ n) && decide (n ≤ 0xfffd) && c != byteOrderMark) ||
    (decide (0x10000 ≤ n) && decide (n < 0x10ffff)))

/-- Whether two neighbours satisfy a relation. -/
def hasNeighbours (r : Char → Char → Bool) : List Char → Bool
  | a :: b :: rest => r a b || hasNeighbours r (b :: rest)
  | _ => false

/-- Whether a string starts or ends with a space or a line break. -/
def hasOuterBlank (cs : List Char) : Bool :=
  let isOuter (c : Char) : Bool := c == ' ' || isTextBreak c
  cs.head?.any isOuter || cs.getLast?.any isOuter

/-- Whether a space stands directly after a line break. -/
def hasBreakSpace (cs : List Char) : Bool := hasNeighbours (fun a b => isTextBreak a && b == ' ') cs

/-- Whether a space stands directly before a line break. -/
def hasSpaceBreak (cs : List Char) : Bool := hasNeighbours (fun a b => a == ' ' && isTextBreak b) cs

/-- The characters that start something else than a plain scalar. -/
def leadingIndicators : List Char := "#,[]{}&*!|>'\"%@\x60".toList

/-- Whether the start of a string is an indicator. -/
def hasLeadingIndicator : List Char → Bool
  | [] => false
  | c :: rest =>
    leadingIndicators.contains c || ((c == '?' || c == ':' || c == '-') && endsWord rest.head?)

/-- Whether a colon before a blank or a hash sign after a blank stands inside a string. -/
def hasInnerIndicator : List Char → Bool
  | [] => false
  | c :: rest =>
    (match rest with
      | d :: more => (d == ':' && endsWord more.head?) || (d == '#' && endsWord (some c))
      | [] => false) || hasInnerIndicator rest

/-- Whether a string starts like a mark between documents. -/
def hasDocumentMark (cs : List Char) : Bool :=
  cs.take 3 == ['-', '-', '-'] || cs.take 3 == ['.', '.', '.']

/-- Whether a text can stand plain, whatever type it is read as. -/
def allowsPlain (cs : List Char) : Bool :=
  !(hasOuterBlank cs || cs.any isSpecial || cs.any isTextBreak || hasDocumentMark cs ||
    hasLeadingIndicator cs || hasInnerIndicator cs)

/-- Whether a string can stand between single quotes. -/
def allowsSingle (cs : List Char) : Bool :=
  !(hasBreakSpace cs || hasSpaceBreak cs || cs.any isSpecial)

/-- The ways to write a string. -/
inductive Style where
  | plain
  | single
  | double
deriving DecidableEq

/-- The way a string is written. -/
def stringStyle (cs : List Char) : Style :=
  if isPlainString cs && allowsPlain cs then .plain
  else if allowsSingle cs then .single
  else .double

/-! ### Quoted strings -/

/-- The inside of a string between single quotes. A line break is doubled, and the next line is
indented; `broken` tells whether a line break has just been written. -/
def singleBody (indent : Nat) (broken : Bool) : List Char → List Char
  | [] => if broken then List.replicate indent ' ' else []
  | c :: rest =>
    if isTextBreak c then
      (if c == '\n' && !broken then ['\n'] else []) ++ c :: singleBody indent true rest
    else
      (if broken then List.replicate indent ' ' else []) ++
        (if c == '\'' then ['\'', '\''] else [c]) ++ singleBody indent false rest

/-- A string between single quotes. -/
def singleQuoted (indent : Nat) (cs : List Char) : List Char :=
  '\'' :: singleBody indent false cs ++ ['\'']

/-- The letter that stands for a character after a backslash. -/
def escapeLetter? : Char → Option Char
  | '\x00' => some '0'
  | '\x07' => some 'a'
  | '\x08' => some 'b'
  | '\t' => some 't'
  | '\n' => some 'n'
  | '\x0b' => some 'v'
  | '\x0c' => some 'f'
  | '\r' => some 'r'
  | '\x1b' => some 'e'
  | '"' => some '"'
  | '\\' => some '\\'
  | '\u0085' => some 'N'
  | '\u2028' => some 'L'
  | '\u2029' => some 'P'
  | _ => none

/-- Whether a character stands for itself between double quotes. -/
def isKept (c : Char) : Bool :=
  let n := c.toNat
  (decide (0x20 ≤ n) && decide (n ≤ 0x7e)) ||
    (decide (0xa0 ≤ n) && decide (n ≤ 0xfffd) && c != byteOrderMark)

/-- One character between double quotes. -/
def doubleChar (c : Char) : List Char :=
  match escapeLetter? c with
  | some letter => ['\\', letter]
  | none =>
    if isKept c then [c]
    else if c.toNat ≤ 0xff then '\\' :: 'x' :: hexUpper 2 c.toNat
    else if c.toNat ≤ 0xffff then '\\' :: 'u' :: hexUpper 4 c.toNat
    else '\\' :: 'U' :: hexUpper 8 c.toNat

/-- A string between double quotes. -/
def doubleQuoted (cs : List Char) : List Char := '"' :: cs.flatMap doubleChar ++ ['"']

/-- A string in its style, with further lines indented. -/
def stringText (indent : Nat) (cs : List Char) : List Char :=
  match stringStyle cs with
  | .plain => cs
  | .single => singleQuoted indent cs
  | .double => doubleQuoted cs

end StackScript.Yaml
