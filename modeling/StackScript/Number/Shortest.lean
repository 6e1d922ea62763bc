import StackScript.Number.Decimal

/-!
# Shortest decimal digits of a double-precision number

Among the decimals that round to a number, the one with the fewest digits is shown, and of those
the nearest. The decimals that round to `mantissa * 2 ^ exponent` form an interval around it; for
`1, 2, …, 17` digits the two neighbours of the number on the grid with so many digits are tested.

## Main definitions

* `Number.Double.shortest`: coefficient and exponent of the shown decimal.
* `Number.Double.display`: the text of a number, with an exponent when it is very large or small.
* `Number.Decimal.fixedPoint`: the text of a decimal without an exponent.
* `Number.Double.fixedPoint`: the displayed text with its exponent worked in, and with a point.
-/

namespace StackScript.Number.Double

-- Powers of natural numbers are those of the core library, whatever else is in scope.
attribute [local instance (2000)] instPowNat

/-- A number and the ends of its rounding interval as numerators over one denominator. -/
structure Window where
  low : Nat
  value : Nat
  high : Nat
  den : Nat
  closed : Bool

/-- The window of `mantissa * 2 ^ exponent`. The lower half of the interval is half as wide where
the spacing of the numbers changes. -/
def window (mantissa : Nat) (exponent : Int) : Window :=
  let scale := (2 : Nat) ^ (exponent - 2).toNat
  let gap := if mantissa = 2 ^ (52 : Nat) ∧ -1074 < exponent then 1 else 2
  { low := (4 * mantissa - gap) * scale
    value := 4 * mantissa * scale
    high := (4 * mantissa + 2) * scale
    den := 2 ^ (2 - exponent).toNat
    closed := mantissa % 2 == 0 }

/-- The exponent of the greatest power of ten not above `num / den`, both positive. -/
def decimalExponent (num den : Nat) : Int :=
  if den ≤ num then ((natText (num / den)).length : Int) - 1
  else
    let size := (natText (den / num)).length - 1
    if den ≤ num * 10 ^ size then -(size : Int) else -((size : Int) + 1)

/-- The window on the grid of multiples of `10 ^ exponent`. -/
def Window.onGrid (w : Window) (exponent : Int) : Window :=
  let up := (10 : Nat) ^ (-exponent).toNat
  { w with
    low := w.low * up
    value := w.value * up
    high := w.high * up
    den := w.den * 10 ^ exponent.toNat }

/-- Whether the grid point `n` lies in the window. -/
def Window.holds (w : Window) (n : Nat) : Bool :=
  let point := n * w.den
  if w.closed then decide (w.low ≤ point) && decide (point ≤ w.high)
  else decide (w.low < point) && decide (point < w.high)

/-- The grid point of the window nearest to its number, if one lies in it. -/
def Window.pick? (w : Window) : Option Nat :=
  let below := w.value / w.den
  match w.holds below, w.holds (below + 1) with
  | true, true => some (roundDiv w.value w.den)
  | true, false => some below
  | false, true => some (below + 1)
  | false, false => none

/-- The first hit on the grids with `digits`, `digits + 1`, … digits. -/
def Window.search (w : Window) (top : Int) : (grids digits : Nat) → Nat × Int
  | 0, _ => (0, 0)
  | grids + 1, digits =>
    let exponent := top - digits + 1
    match (w.onGrid exponent).pick? with
    | some n => (n, exponent)
    | none => w.search top grids (digits + 1)

/-- A coefficient without trailing zeros; they go to the exponent. -/
def dropZeros : Nat → Nat → Int → Nat × Int
  | 0, n, exponent => (n, exponent)
  | steps + 1, n, exponent =>
    if n % 10 = 0 ∧ n ≠ 0 then dropZeros steps (n / 10) (exponent + 1) else (n, exponent)

/-- Coefficient and exponent of the decimal with the fewest digits that rounds to
`mantissa * 2 ^ exponent`, the nearest one of those. -/
def shortest (mantissa : Nat) (exponent : Int) : Nat × Int :=
  if mantissa = 0 then (0, 0)
  else
    let w := window mantissa exponent
    let (n, k) := w.search (decimalExponent w.value w.den) 17 1
    dropZeros 20 n k

/-- Digits with a point before the last `places` of them; at least one digit stands on each side. -/
def withPoint (digits : List Char) (places : Nat) : List Char :=
  let padded := List.replicate (places + 1 - digits.length) '0' ++ digits
  padded.take (padded.length - places) ++ '.' :: padded.drop (padded.length - places)

/-- The numeral of `coefficient * 10 ^ exponent` without an exponent. -/
def positionalText (coefficient : Nat) (exponent : Int) : List Char :=
  if 0 ≤ exponent then
    natText coefficient ++ List.replicate exponent.toNat '0' ++ ['.', '0']
  else withPoint (natText coefficient) (-exponent).toNat

/-- The numeral of `coefficient * 10 ^ exponent` with one digit before the point and an exponent
of at least two digits. -/
def exponentText (coefficient : Nat) (exponent : Int) : List Char :=
  let digits := natText coefficient
  let power := exponent + digits.length - 1
  let mantissaText :=
    match digits with
    | [] => []
    | [d] => [d]
    | d :: more => d :: '.' :: more
  let size := natText power.natAbs
  mantissaText ++ 'e' :: (if power < 0 then '-' else '+') ::
    (List.replicate (2 - size.length) '0' ++ size)

/-- Numbers below `10 ^ -4` or not below `10 ^ 16` are shown with an exponent. -/
def shownPositional (coefficient : Nat) (exponent : Int) : Bool :=
  let power := exponent + (natText coefficient).length - 1
  coefficient == 0 || (decide (-4 ≤ power) && decide (power < 16))

/-- A text after a minus sign, if there is to be one. -/
def signed (negative : Bool) (text : List Char) : List Char :=
  if negative then '-' :: text else text

/-- The text of a number: its shortest digits, positional or with an exponent. -/
def display : Double → List Char
  | .finite negative mantissa exponent _ =>
    let (n, k) := shortest mantissa exponent
    signed negative (if shownPositional n k then positionalText n k else exponentText n k)
  | .infinite negative => signed negative "inf".toList
  | .undefined => "nan".toList

end StackScript.Number.Double

/-! ### Fixed-point notation -/

namespace StackScript.Number

/-- The text of a decimal without an exponent. It has a point only if there are decimal places. -/
def Decimal.fixedPoint (d : Decimal) : List Char :=
  let digits := natText d.coefficient
  Double.signed d.negative <|
    if d.exponent < 0 then Double.withPoint digits (-d.exponent).toNat
    else if d.coefficient = 0 then digits
    else digits ++ List.replicate d.exponent.toNat '0'

namespace Double

/-- A text that gets a point and a zero at its end unless it has a point. -/
def pointed (text : List Char) : List Char :=
  if text.contains '.' then text else text ++ ['.', '0']

/-- The displayed text of a number in fixed-point notation: the decimal of a text with an exponent
is written without one, and a point is never missing. -/
def fixedPoint (x : Double) : List Char :=
  let shown := x.display
  pointed <|
    if shown.contains 'e' || shown.contains 'E' then
      ((Decimal.read? shown).map Decimal.fixedPoint).getD shown
    else shown

end Double

end StackScript.Number
