import StackScript.Number.Double

/-!
# Decimal numerals

A decimal is a sign, a coefficient and a power of ten. Numerals are read exactly into decimals and
only then rounded.

## Main definitions

* `Number.Decimal`: a sign, a coefficient and an exponent of ten.
* `Number.Decimal.toDouble`: the nearest double-precision number.
* `Number.Decimal.read?`: the decimal that a numeral with optional fraction and exponent denotes.
* `Number.natText`, `Number.intText`: the decimal digits of an integer.
-/

namespace StackScript.Number

-- Powers of natural numbers are those of the core library, whatever else is in scope.
attribute [local instance (2000)] instPowNat

/-- Whether a character is one of the ten ASCII digits. -/
def isDigit (c : Char) : Bool := decide ('0' ≤ c) && decide (c ≤ '9')

/-- The number that a list of ASCII digits denotes. -/
def digitsValue (cs : List Char) : Nat :=
  cs.foldl (fun value c => 10 * value + (c.toNat - '0'.toNat)) 0

/-- The decimal digits of a natural number. -/
def natText (n : Nat) : List Char := Nat.toDigits 10 n

/-- The decimal digits of an integer, after a minus sign if it is negative. -/
def intText : Int → List Char
  | .ofNat n => natText n
  | .negSucc n => '-' :: natText (n + 1)

/-- The number of digits that an integer may have when it is read or written. -/
def maxIntegerDigits : Nat := 4300

/-- The text of an integer; there is none if it has too many digits. -/
def writeInt? (n : Int) : Option (List Char) :=
  if (natText n.natAbs).length ≤ maxIntegerDigits then some (intText n) else none

/-- The number `± coefficient * 10 ^ exponent`. -/
structure Decimal where
  negative : Bool
  coefficient : Nat
  exponent : Int
deriving DecidableEq

namespace Decimal

/-- Beyond this power of ten every number rounds to zero or to an infinity. -/
def magnitudeLimit : Int := 400

/-- The nearest double-precision number. -/
def toDouble (d : Decimal) : Double :=
  if d.coefficient = 0 then Double.signedZero d.negative
  else
    let magnitude := ((natText d.coefficient).length : Int) + d.exponent
    if magnitudeLimit < magnitude then .infinite d.negative
    else if magnitude < -magnitudeLimit then Double.signedZero d.negative
    else
      Double.ofRatio d.negative (d.coefficient * 10 ^ d.exponent.toNat)
        (10 ^ (-d.exponent).toNat)

/-- Splits off a leading sign; the flag tells whether it is a minus. -/
def splitSign : List Char → Bool × List Char
  | '-' :: rest => (true, rest)
  | '+' :: rest => (false, rest)
  | rest => (false, rest)

/-- The exponent part of a numeral: nothing, or a letter `e`, a sign and digits. -/
def readExponent? : List Char → Option Int
  | [] => some 0
  | mark :: rest =>
    if mark == 'e' || mark == 'E' then
      let (negative, digits) := splitSign rest
      if digits.isEmpty || !digits.all isDigit then none
      else
        let size := (digitsValue digits : Int)
        some (if negative then -size else size)
    else none

/-- The decimal that an unsigned numeral denotes: digits with at most one point among or beside
them, then an optional exponent. -/
def readUnsigned? (negative : Bool) (cs : List Char) : Option Decimal :=
  let whole := cs.takeWhile isDigit
  let afterWhole := cs.dropWhile isDigit
  let (fraction, tail) :=
    match afterWhole with
    | '.' :: rest => (rest.takeWhile isDigit, rest.dropWhile isDigit)
    | rest => ([], rest)
  if whole.isEmpty && fraction.isEmpty then none
  else do
    let exponent ← readExponent? tail
    return ⟨negative, digitsValue (whole ++ fraction), exponent - fraction.length⟩

/-- The decimal that a numeral with an optional sign denotes. -/
def read? (cs : List Char) : Option Decimal :=
  let (negative, rest) := splitSign cs
  readUnsigned? negative rest

end Decimal

end StackScript.Number
