/-!
# Hexadecimal numerals

## Main definitions

* `Text.hexLower`, `Text.hexUpper`: the hexadecimal digits of a number, padded to a width.
* `Text.hexDigit?`: the value of a hexadecimal digit.
-/

namespace StackScript.Text

/-- A text filled up with zeros on the left to at least `width` characters. -/
def padZeros (width : Nat) (cs : List Char) : List Char :=
  List.replicate (width - cs.length) '0' ++ cs

/-- The hexadecimal digits of `n` with small letters, at least `width` of them. -/
def hexLower (width n : Nat) : List Char := padZeros width (Nat.toDigits 16 n)

/-- The hexadecimal digits of `n` with capital letters, at least `width` of them. -/
def hexUpper (width n : Nat) : List Char := (hexLower width n).map Char.toUpper

/-- The value of a hexadecimal digit. -/
def hexDigit? (c : Char) : Option Nat :=
  if '0' ≤ c ∧ c ≤ '9' then some (c.toNat - '0'.toNat)
  else if 'a' ≤ c ∧ c ≤ 'f' then some (c.toNat - 'a'.toNat + 10)
  else if 'A' ≤ c ∧ c ≤ 'F' then some (c.toNat - 'A'.toNat + 10)
  else none

/-- The number that a list of hexadecimal digits denotes, if all of them are digits. -/
def hexNumber? (cs : List Char) : Option Nat :=
  cs.foldl (fun value c => do return (← value) * 16 + (← hexDigit? c)) (some 0)

end StackScript.Text
