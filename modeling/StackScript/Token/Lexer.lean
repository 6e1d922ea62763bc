import StackScript.Context
import StackScript.Text.Blank
import StackScript.Token.Basic

/-!
# From characters to tokens

A cursor stands before the rest of a text and knows its position. Asking it for the next token
skips layout (blanks and comments), reads one lexeme, and moves on past it. A failure moves the
cursor too: past the characters that were read before the fault showed. The split of a text into
layout, lexeme and rest is made on lists of characters; positions follow from what was passed.

## Main definitions

* `Position`, `Cursor`: a place in a text, and a text from a place on.
* `LexFault`, `LexError`: what can be wrong, and where it starts.
* `Lexeme.read`: the first lexeme of a text that starts with no layout.
* `Cursor.next`: the next token.
* `TokenStream`: all tokens of a text, failures included.
* `tokenize`: the tokens of a text up to its end.
-/

namespace StackScript

open Text Number

/-! ### Positions -/

/-- The number of characters passed, and the line and column reached, counted from one. -/
structure Position where
  offset : Nat := 0
  line : Nat := 1
  column : Nat := 1
deriving DecidableEq

/-- The position after one more character. -/
def Position.step (p : Position) (c : Char) : Position :=
  if c = '\n' then ⟨p.offset + 1, p.line + 1, 1⟩ else ⟨p.offset + 1, p.line, p.column + 1⟩

/-- The position after some more characters. -/
def Position.after (p : Position) (cs : List Char) : Position := cs.foldl Position.step p

/-- A text from a position on. -/
structure Cursor where
  rest : List Char
  position : Position := {}

namespace Cursor

/-- The cursor before the whole of a text. -/
def start (text : List Char) : Cursor := { rest := text }

/-- The cursor one character further; at the end of the text it stays. -/
def advance (c : Cursor) : Cursor :=
  match c.rest with
  | [] => c
  | ch :: rest => ⟨rest, c.position.step ch⟩

/-- The cursor past `passed`, before `rest`. -/
def move (c : Cursor) (passed rest : List Char) : Cursor := ⟨rest, c.position.after passed⟩

end Cursor

/-! ### Character classes -/

/-- Whether an identifier may start with a character: an ASCII letter or an underscore. -/
def isIdentifierStart (c : Char) : Bool :=
  (decide ('a' ≤ c) && decide (c ≤ 'z')) || (decide ('A' ≤ c) && decide (c ≤ 'Z')) || c == '_'

/-- Whether an identifier may contain a character: a start character or an ASCII digit. -/
def isIdentifierPart (c : Char) : Bool := isIdentifierStart c || isDigit c

/-! ### Faults -/

/-- What can be wrong with the characters of a script. -/
inductive LexFault where
  | unterminatedString
  | malformedNumber (text : String)
  | loneAmpersand
  | lonePipe
  | unexpected (c : Char)
deriving DecidableEq

/-- The wording of a fault. -/
def LexFault.message : LexFault → String
  | .unterminatedString => "Unterminated string literal"
  | .malformedNumber text => "Malformed number '" ++ text ++ "'"
  | .loneAmpersand => "Unexpected character '&' (did you mean '&&'?)"
  | .lonePipe => "Unexpected character '|' (did you mean '||'?)"
  | .unexpected c => "Unexpected character " ++ String.ofList (quotedChars [c])

/-- A fault and the place of the lexeme it was found in. -/
structure LexError where
  fault : LexFault
  line : Nat
  column : Nat
deriving DecidableEq

/-! ### Layout -/

/-- Splits off leading layout: blanks and comments, a comment running from `#` or `//` up to the
end of its line. The flag tells whether the text starts inside a comment. -/
def splitLayout (inComment : Bool) : List Char → List Char × List Char
  | [] => ([], [])
  | c :: rest =>
    if inComment then
      let (layout, more) := splitLayout (c != '\n') rest
      (c :: layout, more)
    else if isBlank c then
      let (layout, more) := splitLayout false rest
      (c :: layout, more)
    else if c = '#' ∨ (c = '/' ∧ rest.head? = some '/') then
      let (layout, more) := splitLayout true rest
      (c :: layout, more)
    else ([], c :: rest)

/-! ### Lexemes -/

/-- The outcome of reading one lexeme: a token's kind and text, or a fault, with the characters
passed and the rest of the text. -/
structure Lexeme where
  result : Except LexFault (TokenKind × List Char)
  passed : List Char
  rest : List Char

namespace Lexeme

/-- The character that an escape letter stands for; any other character stands for itself. -/
def unescape (c : Char) : Char :=
  match c with
  | 'n' => '\n'
  | 't' => '\t'
  | 'r' => '\r'
  | c => c

/-- The contents of a string up to its closing quote: the decoded text, the characters passed and
the rest. There is none if the text ends first. -/
def quotedBody (quote : Char) : List Char → Option (List Char × List Char × List Char)
  | [] => none
  | ['\\'] => none
  | '\\' :: c :: rest =>
    (quotedBody quote rest).map fun (value, passed, more) =>
      (unescape c :: value, '\\' :: c :: passed, more)
  | c :: rest =>
    if c = quote then some ([], [c], rest)
    else
      (quotedBody quote rest).map fun (value, passed, more) => (c :: value, c :: passed, more)

/-- A string literal, given the text after its opening quote. -/
def readString (quote : Char) (text : List Char) : Lexeme :=
  match quotedBody quote text with
  | some (value, passed, rest) => ⟨.ok (.string, value), quote :: passed, rest⟩
  | none => ⟨.error .unterminatedString, quote :: text, []⟩

/-- The kind of two characters that form one token. -/
def pairKind? : Char → Char → Option TokenKind
  | '=', '=' => some .doubleEquals
  | '!', '=' => some .notEquals
  | '&', '&' => some .doubleAmpersand
  | '|', '|' => some .doublePipe
  | ':', ':' => some .doubleColon
  | _, _ => none

/-- The kind of a character that forms a token by itself. -/
def singleKind? : Char → Option TokenKind
  | '=' => some .equals
  | '(' => some .lparen
  | ')' => some .rparen
  | '{' => some .lbrace
  | '}' => some .rbrace
  | '[' => some .lbracket
  | ']' => some .rbracket
  | ',' => some .comma
  | '.' => some .dot
  | ':' => some .colon
  | '!' => some .bang
  | _ => none

/-- The fraction that starts a text: a point and at least one digit. -/
def fraction : List Char → List Char
  | '.' :: rest =>
    match rest.takeWhile isDigit with
    | [] => []
    | digits => '.' :: digits
  | _ => []

/-- A number, or an identifier that starts with digits. A number with a sign or a fraction must not
run into an identifier. -/
def readNumber (sign text : List Char) : Lexeme :=
  let whole := text.takeWhile isDigit
  let tail := text.dropWhile isDigit
  let frac := fraction tail
  let passed := sign ++ whole ++ frac
  let rest := tail.drop frac.length
  match rest with
  | c :: _ =>
    if isIdentifierStart c then
      if sign.isEmpty && frac.isEmpty then
        let name := passed ++ rest.takeWhile isIdentifierPart
        ⟨.ok (.identifier, name), name, rest.dropWhile isIdentifierPart⟩
      else ⟨.error (.malformedNumber (String.ofList (passed ++ [c]))), passed, rest⟩
    else ⟨.ok (.number, passed), passed, rest⟩
  | [] => ⟨.ok (.number, passed), passed, rest⟩

/-- The lexeme that starts with `c`, where no token of two characters does. -/
def readOne (c : Char) (rest : List Char) : Lexeme :=
  match singleKind? c with
  | some kind => ⟨.ok (kind, [c]), [c], rest⟩
  | none =>
    if c = '"' ∨ c = '\'' then readString c rest
    else if isDigit c then readNumber [] (c :: rest)
    else if c = '-' ∧ (rest.head?.any isDigit) then readNumber ['-'] rest
    else if isIdentifierStart c then
      let name := (c :: rest).takeWhile isIdentifierPart
      ⟨.ok (.identifier, name), name, (c :: rest).dropWhile isIdentifierPart⟩
    else
      let fault := if c = '&' then LexFault.loneAmpersand
        else if c = '|' then .lonePipe else .unexpected c
      ⟨.error fault, [], c :: rest⟩

/-- The first lexeme of a text; the longest token wins. -/
def read : List Char → Lexeme
  | [] => ⟨.ok (.eof, []), [], []⟩
  | [c] => readOne c []
  | c :: d :: rest =>
    match pairKind? c d with
    | some kind => ⟨.ok (kind, [c, d]), [c, d], rest⟩
    | none => readOne c (d :: rest)

end Lexeme

/-! ### The next token -/

namespace Cursor

/-- The cursor past the layout before it. -/
def skipLayout (c : Cursor) : Cursor :=
  let (layout, rest) := splitLayout false c.rest
  c.move layout rest

/-- The next token or the fault in its place, and the cursor past what was read. -/
def next (c : Cursor) : Except LexError Token × Cursor :=
  let c := c.skipLayout
  let lexeme := Lexeme.read c.rest
  let result := match lexeme.result with
    | .ok (kind, value) =>
      .ok ⟨kind, String.ofList value, c.position.line, c.position.column⟩
    | .error fault => .error ⟨fault, c.position.line, c.position.column⟩
  (result, c.move lexeme.passed lexeme.rest)

/-- The next token or the fault in its place; the cursor goes back to where it stood. -/
def peek (c : Cursor) : Except LexError Token × Cursor := (c.next.1, c)

/-- The characters of an identifier at the cursor, and the cursor past them. -/
def identifier (c : Cursor) : String × Cursor :=
  let name := c.rest.takeWhile isIdentifierPart
  (String.ofList name, c.move name (c.rest.dropWhile isIdentifierPart))

end Cursor

/-! ### All tokens -/

/-- The answers that a cursor gives when it is asked again and again: first the items, then the
last answer for ever. -/
structure TokenStream where
  items : List (Except LexError Token)
  last : Except LexError Token

namespace TokenStream

/-- The first answer. -/
def head (s : TokenStream) : Except LexError Token :=
  match s.items with
  | item :: _ => item
  | [] => s.last

/-- The stream after its first answer. -/
def tail (s : TokenStream) : TokenStream := { s with items := s.items.drop 1 }

/-- The answers of a cursor. The end of the text, and a fault that nothing is read before, come
again for ever; `limit` bounds the number of other answers. -/
def ofCursor : (limit : Nat) → Cursor → TokenStream
  | 0, c => ⟨[], c.next.1⟩
  | limit + 1, c =>
    let (answer, after) := c.next
    if (Lexeme.read c.skipLayout.rest).passed.isEmpty then ⟨[], answer⟩
    else
      let more := ofCursor limit after
      { more with items := answer :: more.items }

/-- The tokens of a text. -/
def ofText (text : List Char) : TokenStream := ofCursor text.length (Cursor.start text)

/-- The tokens of a stream up to its end, or the first fault in it. -/
def toList (s : TokenStream) : Except LexError (List Token) :=
  (s.items ++ [s.last]).mapM id

end TokenStream

/-- The tokens of a text, the end of input last. -/
def tokenize (text : List Char) : Except LexError (List Token) := (TokenStream.ofText text).toList

end StackScript
