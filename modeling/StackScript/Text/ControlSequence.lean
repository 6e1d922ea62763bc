import StackScript.Number.Decimal

/-!
# Control sequences

An escape character, a bracket, parameters and a letter tell a terminal to change its colour or to
move its cursor, and are not shown. A text that does not go to a terminal is written without them.
What only looks like the start of a control sequence is text.

## Main definitions

* `Text.startsControl`: whether a text starts with a control sequence.
* `Text.dropControls`: a text without its control sequences.
-/

namespace StackScript.Text

/-- The character that control sequences start with. -/
def escapeMark : Char := '\x1b'

/-- Whether a character is a parameter of a control sequence, or divides parameters. -/
def isControlParameter (c : Char) : Bool := Number.isDigit c || c == ';' || c == '?'

/-- Whether a character ends a control sequence: an ASCII letter. -/
def isControlFinal (c : Char) : Bool :=
  (decide ('a' ≤ c) && decide (c ≤ 'z')) || (decide ('A' ≤ c) && decide (c ≤ 'Z'))

/-- Whether a text starts with a control sequence. -/
def startsControl : List Char → Bool
  | c :: '[' :: rest =>
    c == escapeMark && (rest.dropWhile isControlParameter).head?.any isControlFinal
  | _ => false

/-- A text without its control sequences. The flag tells whether the text starts inside one, which
its first letter ends. -/
def dropControlsFrom (inside : Bool) : List Char → List Char
  | [] => []
  | c :: rest =>
    if inside then dropControlsFrom (!isControlFinal c) rest
    else if startsControl (c :: rest) then dropControlsFrom true rest
    else c :: dropControlsFrom false rest

/-- A text without its control sequences. -/
def dropControls (text : List Char) : List Char := dropControlsFrom false text

end StackScript.Text
