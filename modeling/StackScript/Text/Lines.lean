import StackScript.Text.Split

/-!
# Lines of a text

Lines end at a line feed only; no other break character divides a text here.

## Main definitions

* `Text.lines`: the lines of a text, at least one.
* `Text.lineAt`: a line by its number.
* `Text.unifyBreaks`: the text with every line break written as a line feed.
* `Text.dropReturns`: the text with only a line feed where a carriage return stood before it.
-/

namespace StackScript.Text

/-- The lines of a text, without the line feeds between them. -/
def lines (text : List Char) : List (List Char) := splitAtChar '\n' text

/-- The line with the given number, counted from one. -/
def lineAt (text : List Char) (number : Int) : Option (List Char) :=
  if number < 1 then none else (lines text)[(number - 1).toNat]?

/-- The text in which a carriage return, with or without a line feed, is a line feed. -/
def unifyBreaks : List Char → List Char
  | [] => []
  | '\r' :: '\n' :: rest => '\n' :: unifyBreaks rest
  | '\r' :: rest => '\n' :: unifyBreaks rest
  | c :: rest => c :: unifyBreaks rest

/-- The text in which a carriage return before a line feed is left out; other ones stay. -/
def dropReturns : List Char → List Char
  | [] => []
  | '\r' :: '\n' :: rest => '\n' :: dropReturns rest
  | c :: rest => c :: dropReturns rest

/-- The character at an index, where negative indices count from the end of the text; `none` past
the end, an error before the start. -/
def charAt (text : List Char) (index : Int) : Except Unit (Option Char) :=
  if 0 ≤ index then .ok text[index.toNat]?
  else if 0 ≤ index + text.length then .ok text[(index + text.length).toNat]?
  else .error ()

end StackScript.Text
