import StackScript.Number.Decimal
import StackScript.Text.Hex

/-!
# Calendar dates and moments

Dates of the Gregorian calendar and moments of a day, with an optional offset from universal time
in minutes, and their standard texts.

## Main definitions

* `Date`, `Moment`: the types; `Date.ofParts?` and `Moment.ofParts?` check the ranges.
* `Date.text`, `Moment.text`: year, month and day joined by hyphens, then the time of day.
-/

namespace StackScript

open Number Text

/-- A day of the calendar. -/
structure Date where
  year : Nat
  month : Nat
  day : Nat
deriving DecidableEq

namespace Date

/-- Whether a year has a 29th of February. -/
def isLeapYear (year : Nat) : Bool :=
  year % 4 == 0 && (year % 100 != 0 || year % 400 == 0)

/-- The number of days of a month. -/
def daysInMonth (year month : Nat) : Nat :=
  if month == 2 then (if isLeapYear year then 29 else 28)
  else if month == 4 || month == 6 || month == 9 || month == 11 then 30
  else 31

/-- The date with the given parts, if there is such a day. -/
def ofParts? (year month day : Nat) : Option Date :=
  if 1 ≤ year ∧ year ≤ 9999 ∧ 1 ≤ month ∧ month ≤ 12 ∧ 1 ≤ day ∧ day ≤ daysInMonth year month then
    some ⟨year, month, day⟩
  else none

/-- The number of days since the first of January of the year one. -/
def ordinal (d : Date) : Nat :=
  let years := d.year - 1
  let months := (List.range (d.month - 1)).map fun m => daysInMonth d.year (m + 1)
  365 * years + years / 4 - years / 100 + years / 400 + months.foldl (· + ·) 0 + (d.day - 1)

/-- Year, month and day joined by hyphens. -/
def text (d : Date) : List Char :=
  padZeros 4 (natText d.year) ++ '-' :: padZeros 2 (natText d.month) ++
    '-' :: padZeros 2 (natText d.day)

end Date

/-- A time of a day, with its distance from universal time in minutes where that is known. -/
structure Moment where
  date : Date
  hour : Nat
  minute : Nat
  second : Nat
  microsecond : Nat
  offset : Option Int
deriving DecidableEq

namespace Moment

/-- The moment with the given parts, if the parts are in range. -/
def ofParts? (date : Date) (hour minute second microsecond : Nat) (offset : Option Int) :
    Option Moment :=
  let offsetFits : Bool := match offset with
    | some minutes => decide (minutes.natAbs < 24 * 60)
    | none => true
  if hour < 24 ∧ minute < 60 ∧ second < 60 ∧ microsecond < 1000000 ∧ offsetFits then
    some ⟨date, hour, minute, second, microsecond, offset⟩
  else none

/-- Microseconds on the clock since the start of the year one. -/
def clock (m : Moment) : Nat :=
  (((m.date.ordinal * 24 + m.hour) * 60 + m.minute) * 60 + m.second) * 1000000 + m.microsecond

/-- Whether two moments are the same: by universal time where both offsets are known, by the clock
where neither is. -/
def same (a b : Moment) : Bool :=
  match a.offset, b.offset with
  | some x, some y => (a.clock : Int) - x * 60000000 == (b.clock : Int) - y * 60000000
  | none, none => a.clock == b.clock
  | _, _ => false

/-- The sign, hours and minutes of an offset. -/
def offsetText (minutes : Int) : List Char :=
  (if minutes < 0 then '-' else '+') :: padZeros 2 (natText (minutes.natAbs / 60)) ++
    ':' :: padZeros 2 (natText (minutes.natAbs % 60))

/-- Date and time of day with `separator` between them; a fraction is written only when it is not
zero, an offset only when it is known. -/
def text (separator : Char) (m : Moment) : List Char :=
  m.date.text ++ separator :: padZeros 2 (natText m.hour) ++ ':' :: padZeros 2 (natText m.minute) ++
    ':' :: padZeros 2 (natText m.second) ++
    (if m.microsecond = 0 then [] else '.' :: padZeros 6 (natText m.microsecond)) ++
    (match m.offset with
      | some minutes => offsetText minutes
      | none => [])

end Moment

end StackScript
