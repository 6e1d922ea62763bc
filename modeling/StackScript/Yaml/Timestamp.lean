import StackScript.Value.Calendar
import StackScript.Yaml.Cursor
import StackScript.Yaml.Fault

/-!
# Points in time in YAML

A date, or a date with a time of day that may have a fraction of a second and an offset from
universal time.

## Main definitions

* `Yaml.TimeText`: the parts of such a text, not yet checked against the calendar.
* `Yaml.TimeText.read?`: the parts of a text.
* `Yaml.TimeText.isStandard`: the forms that are recognised without a tag.
-/

namespace StackScript.Yaml

open Number

/-- The time of day in a text: the fraction as its digits, and the offset as a sign with hours and
minutes. -/
structure ClockText where
  hour : Nat
  minute : Nat
  second : Nat
  fraction : List Char
  offset : Option Int

/-- A point in time as it is written. The day may have a single digit, and so may the month. -/
structure TimeText where
  year : Nat
  month : Nat
  day : Nat
  shortDate : Bool
  clock : Option ClockText

namespace TimeText

/-- At least `least` and at most `most` digits, and the rest. -/
def digits? (least most : Nat) (cs : List Char) : Option (List Char × List Char) :=
  let run := (cs.take most).takeWhile isDigit
  if run.length < least then none else some (run, cs.drop run.length)

/-- The text after a given character. -/
def after? (mark : Char) : List Char → Option (List Char)
  | c :: rest => if c == mark then some rest else none
  | [] => none

/-- The offset at the end of a text; blanks may stand before it. -/
def offset? (cs : List Char) : Option (Option Int) :=
  match cs.dropWhile isWhite with
  | ['Z'] => some (some 0)
  | sign :: rest =>
    if sign == '+' || sign == '-' then do
      let (hours, rest) ← digits? 1 2 rest
      let (minutes, rest) ← match rest with
        | ':' :: more => digits? 2 2 more
        | rest => pure ([], rest)
      if rest.isEmpty then
        let size := (60 * digitsValue hours + digitsValue minutes : Nat)
        return some (if sign == '-' then -(size : Int) else size)
      else none
    else none
  | [] => if cs.isEmpty then some none else none

/-- The time of day at the end of a text. -/
def clock? (cs : List Char) : Option ClockText := do
  let (hour, cs) ← digits? 1 2 cs
  let (minute, cs) ← digits? 2 2 (← after? ':' cs)
  let (second, cs) ← digits? 2 2 (← after? ':' cs)
  let (fraction, cs) := match cs with
    | '.' :: rest => (rest.takeWhile isDigit, rest.dropWhile isDigit)
    | rest => ([], rest)
  let offset ← offset? cs
  return ⟨digitsValue hour, digitsValue minute, digitsValue second, fraction, offset⟩

/-- The time of day after a date, divided from it by a letter `T` or by blanks. -/
def separatedClock? : List Char → Option ClockText
  | [] => none
  | c :: rest =>
    if c == 'T' || c == 't' then clock? rest
    else if isWhite c then clock? (rest.dropWhile isWhite)
    else none

/-- The parts of a point in time. -/
def read? (cs : List Char) : Option TimeText := do
  let (year, cs) ← digits? 4 4 cs
  let (month, cs) ← digits? 1 2 (← after? '-' cs)
  let (day, cs) ← digits? 1 2 (← after? '-' cs)
  let shortDate := month.length < 2 || day.length < 2
  if cs.isEmpty then
    return ⟨digitsValue year, digitsValue month, digitsValue day, shortDate, none⟩
  else
    let clock ← separatedClock? cs
    return ⟨digitsValue year, digitsValue month, digitsValue day, shortDate, some clock⟩

/-- Whether a text is recognised without a tag: a date without a time of day needs two digits for
month and day. -/
def isStandard (cs : List Char) : Bool :=
  match read? cs with
  | some t => t.clock.isSome || !t.shortDate
  | none => false

/-- The millionths of a second that the digits of a fraction stand for; further digits are cut
off. -/
def microseconds (fraction : List Char) : Nat :=
  digitsValue (fraction.take 6 ++ List.replicate (6 - fraction.length) '0')

/-- The date of a text, if there is such a day. -/
def date? (t : TimeText) : Option Date := Date.ofParts? t.year t.month t.day

/-- The moment of a text with a time of day, if there is such a moment. -/
def moment? (t : TimeText) (clock : ClockText) : Option Moment := do
  Moment.ofParts? (← t.date?) clock.hour clock.minute clock.second (microseconds clock.fraction)
    clock.offset

end TimeText

end StackScript.Yaml
