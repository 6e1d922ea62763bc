import StackScript.Number.Decimal
import StackScript.Text.Blank
import StackScript.Text.DecimalDigit
import StackScript.Text.Hex
import StackScript.Text.LetterCase

/-!
# Numerals with blanks, signs and digits of any script

Numerals as people type them: blanks around the number, a sign, decimal digits of any script,
single underscores between digits, and a letter after a zero that tells the base again.

## Main definitions

* `Number.readInteger?`: the integer that a numeral in a base denotes.
* `Number.readReal?`: the floating-point number that a numeral or a word denotes.
-/

namespace StackScript.Number

open Text

/-- A character as numerals see it: blanks beyond ASCII are spaces, decimal digits of any script
are ASCII digits, and no other character beyond ASCII occurs in a numeral. -/
def numeralChar (c : Char) : Char :=
  if c.toNat < 127 then c
  else if isBlank c then ' '
  else
    match decimalDigit? c with
    | some d => Char.ofNat ('0'.toNat + d)
    | none => '?'

/-- Whether a character may stand around a numeral. -/
def isNumeralBlank (c : Char) : Bool := c == ' ' || (decide ('\t' ≤ c) && decide (c ≤ '\r'))

/-- A numeral in ASCII, without the blanks around it. -/
def plainNumeral (cs : List Char) : List Char :=
  let trimmed := (cs.map numeralChar).dropWhile isNumeralBlank
  (trimmed.reverse.dropWhile isNumeralBlank).reverse

/-- The value of a digit in a base up to sixteen. -/
def baseDigit? (base : Nat) (c : Char) : Option Nat :=
  match hexDigit? c with
  | some d => if d < base then some d else none
  | none => none

/-- The values of one or more digits, with at most one underscore between neighbours. -/
def baseDigits? (base : Nat) : List Char → Option (List Nat)
  | [] => none
  | c :: rest => do
    let d ← baseDigit? base c
    match rest with
    | [] => return [d]
    | '_' :: more => return d :: (← baseDigits? base more)
    | more => return d :: (← baseDigits? base more)

/-- The letter that may follow a zero to tell the base. -/
def baseLetter? : Nat → Option Char
  | 2 => some 'b'
  | 8 => some 'o'
  | 16 => some 'x'
  | _ => none

/-- A numeral without a zero and a letter that tell its base. -/
def dropBaseMark (base : Nat) : List Char → List Char
  | '0' :: mark :: rest =>
    if some mark.toLower = baseLetter? base then
      match rest with
      | '_' :: more => more
      | more => more
    else '0' :: mark :: rest
  | cs => cs

/-- The integer that a numeral in a base denotes. Decimal numerals may not have too many digits. -/
def readInteger? (base : Nat) (cs : List Char) : Option Int := do
  let (negative, unsigned) := Decimal.splitSign (plainNumeral cs)
  let digits ← baseDigits? base (dropBaseMark base unsigned)
  if base = 10 ∧ maxIntegerDigits < digits.length then none
  else
    let size := (digits.foldl (fun value d => base * value + d) 0 : Nat)
    return if negative then -(size : Int) else size

/-- The words for numbers that are not finite. -/
def infinityWords : List String := ["inf", "infinity"]

/-- The floating-point number that a decimal numeral or a word denotes. -/
def readReal? (cs : List Char) : Option Double :=
  let (negative, unsigned) := Decimal.splitSign (plainNumeral cs)
  let word := String.ofList (lower unsigned)
  if infinityWords.contains word then some (.infinite negative)
  else if word = "nan" then some .undefined
  else (Decimal.readUnsigned? negative unsigned).map Decimal.toDouble

end StackScript.Number
