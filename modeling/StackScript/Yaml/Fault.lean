/-!
# Faults of YAML documents

What can be wrong with a YAML text. Anything against the rules of the notation is `malformed`; the
other faults are about scalars whose text does not fit the type they are given.
-/

namespace StackScript.Yaml

/-- What can be wrong with a YAML text.

* `malformed`: against the rules of the notation.
* `codePoint`: an escape for a code point beyond the last one.
* `codePointRange`: an escape for a number that no code point can have.
* `numeral`: the text of a number is no numeral.
* `emptyNumeral`: the text of a number has no characters.
* `magnitude`: a place of a number is beyond the range of floating-point numbers.
* `truthValue`: the text of a truth value is none of its words.
* `timestamp`: the text of a point in time has another form.
* `timestampShape`: a point in time is given by a mapping.
* `calendar`: there is no such point in time. -/
inductive Fault where
  | malformed
  | codePoint
  | codePointRange
  | numeral
  | emptyNumeral
  | magnitude
  | truthValue
  | timestamp
  | timestampShape
  | calendar
deriving DecidableEq

end StackScript.Yaml
