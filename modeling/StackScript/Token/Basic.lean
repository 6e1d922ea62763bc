import StackScript.Number.Decimal
import StackScript.Text.Quoted

/-!
# Tokens of a script

## Main definitions

* `TokenKind`: the kinds of tokens; `TokenKind.text` is what messages call them.
* `Token`: a kind, a text and the place where the token starts; `Token.describe` names it in
  messages.
-/

namespace StackScript

/-- The kinds of tokens. -/
inductive TokenKind where
  | identifier
  | string
  | number
  | equals
  | lparen
  | rparen
  | lbrace
  | rbrace
  | lbracket
  | rbracket
  | comma
  | dot
  | colon
  | doubleColon
  | doubleEquals
  | notEquals
  | doubleAmpersand
  | doublePipe
  | bang
  | eof
deriving DecidableEq

namespace TokenKind

/-- All kinds of tokens. -/
def all : List TokenKind :=
  [.identifier, .string, .number, .equals, .lparen, .rparen, .lbrace, .rbrace, .lbracket,
    .rbracket, .comma, .dot, .colon, .doubleColon, .doubleEquals, .notEquals, .doubleAmpersand,
    .doublePipe, .bang, .eof]

/-- The name of a kind in messages: the characters of an operator or a bracket. -/
def text : TokenKind → String
  | .identifier => "identifier"
  | .string => "string"
  | .number => "number"
  | .equals => "="
  | .lparen => "("
  | .rparen => ")"
  | .lbrace => String.singleton '{'
  | .rbrace => String.singleton '}'
  | .lbracket => "["
  | .rbracket => "]"
  | .comma => ","
  | .dot => "."
  | .colon => ":"
  | .doubleColon => "::"
  | .doubleEquals => "=="
  | .notEquals => "!="
  | .doubleAmpersand => "&&"
  | .doublePipe => "||"
  | .bang => "!"
  | .eof => "end of input"

/-- The name of a kind in the display of a token. -/
def label : TokenKind → String
  | .identifier => "IDENTIFIER"
  | .string => "STRING"
  | .number => "NUMBER"
  | .equals => "EQUALS"
  | .lparen => "LPAREN"
  | .rparen => "RPAREN"
  | .lbrace => "LBRACE"
  | .rbrace => "RBRACE"
  | .lbracket => "LBRACKET"
  | .rbracket => "RBRACKET"
  | .comma => "COMMA"
  | .dot => "DOT"
  | .colon => "COLON"
  | .doubleColon => "DOUBLE_COLON"
  | .doubleEquals => "DOUBLE_EQUALS"
  | .notEquals => "NOT_EQUALS"
  | .doubleAmpersand => "DOUBLE_AMPERSAND"
  | .doublePipe => "DOUBLE_PIPE"
  | .bang => "BANG"
  | .eof => "EOF"

/-- The kind with a given text. -/
def ofText? (s : String) : Option TokenKind := all.find? (·.text == s)

end TokenKind

/-- A token of a script: its kind, its text (for a string what the quotes enclose, with escapes
decoded), and the line and column where it starts, counted from one. -/
structure Token where
  kind : TokenKind
  value : String
  line : Nat
  column : Nat
deriving DecidableEq

namespace Token

/-- The token in words, as messages name it. -/
def describe (t : Token) : String :=
  match t.kind with
  | .eof => "end of input"
  | .string => "string " ++ Text.quoted t.value
  | .identifier => "identifier '" ++ t.value ++ "'"
  | .number => "number '" ++ t.value ++ "'"
  | kind => "'" ++ kind.text ++ "'"

/-- The kind, text and place of the token in one line. -/
def display (t : Token) : String :=
  "Token(" ++ t.kind.label ++ ", " ++ Text.quoted t.value ++ ", " ++
    String.ofList (Number.natText t.line) ++ ":" ++ String.ofList (Number.natText t.column) ++ ")"

end Token

end StackScript
