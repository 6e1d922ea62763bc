/-!
# Splitting a text

The parts of a text between separators of one or two characters. There is always at least one part,
and the parts with the separators between them make up the text again.

## Main definitions

* `Text.splitAtChar`: the parts between single characters.
* `Text.splitAtPair`: the parts between pairs of characters, found from left to right.
-/

namespace StackScript.Text

/-- A character put in front of the first part. -/
def extendFirst (c : Char) : List (List Char) → List (List Char)
  | [] => [[c]]
  | part :: more => (c :: part) :: more

/-- The parts of a text between occurrences of a character. -/
def splitAtChar (separator : Char) : List Char → List (List Char)
  | [] => [[]]
  | c :: rest =>
    if c == separator then [] :: splitAtChar separator rest
    else extendFirst c (splitAtChar separator rest)

/-- The parts of a text between occurrences of two characters in a row. -/
def splitAtPair (first second : Char) : List Char → List (List Char)
  | [] => [[]]
  | [c] => [[c]]
  | c :: d :: rest =>
    if c == first && d == second then [] :: splitAtPair first second rest
    else extendFirst c (splitAtPair first second (d :: rest))

end StackScript.Text
