/-!
# Binary floating-point numbers

Double-precision numbers by their parts: a finite number is `± mantissa * 2 ^ exponent` in the one
form that uses all 53 bits whenever the exponent allows it. Every operation is exact arithmetic on
natural numbers followed by one rounding to the nearest number, a tie going to the even mantissa.

## Main definitions

* `Number.Double`: the numbers, with two zeros, two infinities and one undefined value.
* `Number.Double.ofRatio`: the number nearest to a quotient.
* `Number.Double.add`, `Number.Double.mul`: rounded sum and product.
* `Number.Double.equalsInt`: exact comparison with an integer.
-/

namespace StackScript.Number

-- Powers of natural numbers are those of the core library, whatever else is in scope.
attribute [local instance (2000)] instPowNat

/-- Mantissa and exponent use all 53 bits, unless the exponent is the least one. -/
def IsCanonical (mantissa : Nat) (exponent : Int) : Prop :=
  mantissa < 2 ^ (53 : Nat) ∧ -1074 ≤ exponent ∧ exponent ≤ 971 ∧
    (2 ^ (52 : Nat) ≤ mantissa ∨ exponent = -1074)

instance (mantissa : Nat) (exponent : Int) : Decidable (IsCanonical mantissa exponent) :=
  inferInstanceAs (Decidable (_ ∧ _))

/-- A double-precision number. -/
inductive Double where
  | finite (negative : Bool) (mantissa : Nat) (exponent : Int)
      (canonical : IsCanonical mantissa exponent)
  | infinite (negative : Bool)
  | undefined
deriving DecidableEq

namespace Double

/-- The quotient rounded to the nearest natural number, a tie going to the even one. -/
def roundDiv (num den : Nat) : Nat :=
  let quotient := num / den
  let twice := 2 * (num % den)
  if twice < den then quotient
  else if den < twice then quotient + 1
  else if quotient % 2 = 0 then quotient else quotient + 1

/-- The exponent of the greatest power of two not above `num / den`, both positive. -/
def binaryExponent (num den : Nat) : Int :=
  let guess := (num.log2 : Int) - den.log2
  if num * 2 ^ (-guess).toNat < den * 2 ^ guess.toNat then guess - 1 else guess

/-- The number with the given parts; parts beyond the largest number give an infinity. -/
def ofParts (negative : Bool) (mantissa : Nat) (exponent : Int) : Double :=
  if h : IsCanonical mantissa exponent then .finite negative mantissa exponent h
  else .infinite negative

/-- A zero with the given sign. -/
def signedZero (negative : Bool) : Double :=
  .finite negative 0 (-1074) (by decide)

/-- The number nearest to `± num / den`, a tie going to the even mantissa. -/
def ofRatio (negative : Bool) (num den : Nat) : Double :=
  if num = 0 then signedZero negative
  else
    let exponent := max (binaryExponent num den - 52) (-1074)
    let mantissa := roundDiv (num * 2 ^ (-exponent).toNat) (den * 2 ^ exponent.toNat)
    if mantissa = 2 ^ (53 : Nat) then ofParts negative (2 ^ (52 : Nat)) (exponent + 1)
    else ofParts negative mantissa exponent

/-- The number nearest to an integer. -/
def ofInt (n : Int) : Double := ofRatio (decide (n < 0)) n.natAbs 1

/-- Whether the number is neither infinite nor undefined. -/
def isFinite : Double → Bool
  | .finite .. => true
  | _ => false

/-- The number with the opposite sign. -/
def neg : Double → Double
  | .finite negative mantissa exponent h => .finite (!negative) mantissa exponent h
  | .infinite negative => .infinite (!negative)
  | .undefined => .undefined

/-- Numerator and denominator of `mantissa * 2 ^ exponent`. -/
def ratio (mantissa : Nat) (exponent : Int) : Nat × Nat :=
  (mantissa * 2 ^ exponent.toNat, 2 ^ (-exponent).toNat)

/-- The rounded product. -/
def mul : Double → Double → Double
  | .finite s m e _, .finite s' m' e' _ =>
    let (num, den) := ratio (m * m') (e + e')
    ofRatio (s != s') num den
  | .undefined, _ => .undefined
  | _, .undefined => .undefined
  | .infinite s, .finite s' m' _ _ => if m' = 0 then .undefined else .infinite (s != s')
  | .finite s m _ _, .infinite s' => if m = 0 then .undefined else .infinite (s != s')
  | .infinite s, .infinite s' => .infinite (s != s')

/-- The rounded sum. -/
def add : Double → Double → Double
  | .finite s m e _, .finite s' m' e' _ =>
    let low := min e e'
    let signed (negative : Bool) (n : Nat) : Int := if negative then -(n : Int) else n
    let total := signed s (m * 2 ^ (e - low).toNat) + signed s' (m' * 2 ^ (e' - low).toNat)
    if total = 0 then signedZero (s && s')
    else
      let (num, den) := ratio total.natAbs low
      ofRatio (decide (total < 0)) num den
  | .undefined, _ => .undefined
  | _, .undefined => .undefined
  | .infinite s, .finite .. => .infinite s
  | .finite .., .infinite s => .infinite s
  | .infinite s, .infinite s' => if s == s' then .infinite s else .undefined

/-- Whether the number equals an integer. -/
def equalsInt : Double → Int → Bool
  | .finite negative mantissa exponent _, n =>
    let (num, den) := ratio mantissa exponent
    (if negative then -(num : Int) else num) == n * den
  | _, _ => false

/-- Numeric equality: the two zeros are equal, the undefined value equals nothing. -/
def equals : Double → Double → Bool
  | .finite s m e _, .finite s' m' e' _ => (m == 0 && m' == 0) || (s == s' && m == m' && e == e')
  | .infinite s, .infinite s' => s == s'
  | _, _ => false

end Double

end StackScript.Number
