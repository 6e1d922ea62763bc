import StackScript.Text.Hex
import StackScript.Text.Printable

/-!
# Quoted display of texts

Messages show a text between quotes, with escapes for the characters that would not be seen. The
quotes are single, unless the text holds a single quote and no double quote.

## Main definitions

* `Text.quoted`: the quoted display of a text.
-/

namespace StackScript.Text

/-- The quote around the display of a text. -/
def displayQuote (cs : List Char) : Char :=
  if cs.contains '\'' && !cs.contains '"' then '"' else '\''

/-- The display of one character between quotes `quote`. -/
def displayChar (quote c : Char) : List Char :=
  if c == quote || c == '\\' then ['\\', c]
  else if c == '\n' then ['\\', 'n']
  else if c == '\r' then ['\\', 'r']
  else if c == '\t' then ['\\', 't']
  else if isPrintable c then [c]
  else
    let n := c.toNat
    if n ≤ 0xff then '\\' :: 'x' :: hexLower 2 n
    else if n ≤ 0xffff then '\\' :: 'u' :: hexLower 4 n
    else '\\' :: 'U' :: hexLower 8 n

/-- The display of a text between quotes. -/
def quotedChars (cs : List Char) : List Char :=
  let quote := displayQuote cs
  quote :: cs.flatMap (displayChar quote) ++ [quote]

/-- The display of a string between quotes. -/
def quoted (s : String) : String := String.ofList (quotedChars s.toList)

end StackScript.Text
