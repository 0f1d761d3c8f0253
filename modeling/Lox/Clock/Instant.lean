import Lox.Decimal.Numeral

/-! Points in time, read from their written form. -/
namespace Lox.Clock

open Lox.Decimal

/-- Exactly `n` digits at the front, and what follows them. -/
def exactly (n : Nat) (t : Text) : Option (Nat × Text) :=
  let digits := t.take n
  if digits.length = n ∧ digits.all isDigit then some (digitsValue digits, t.drop n) else none

/-- Two digits at the front, or one before something else. -/
def oneOrTwo : Text → Option (Nat × Text)
  | a :: b :: rest =>
    if isDigit a then
      if isDigit b then some (digitsValue [a, b], rest) else some (digitsValue [a], b :: rest)
    else none
  | [a] => if isDigit a then some (digitsValue [a], []) else none
  | [] => none

def after (b : UInt8) : Text → Option Text
  | c :: rest => if b = c then some rest else none
  | [] => none

def isLeap (year : Nat) : Bool := year % 4 == 0 && (year % 100 != 0 || year % 400 == 0)

def daysIn (year month : Nat) : Nat :=
  if month = 2 then if isLeap year then 29 else 28
  else if month = 4 ∨ month = 6 ∨ month = 9 ∨ month = 11 then 30
  else 31

def daysBefore (year : Nat) : Nat :=
  if year = 0 then 0
  else 365 * year + ((year - 1) / 4 + 1) - ((year - 1) / 100 + 1) + ((year - 1) / 400 + 1)

/-- The number of a day, counted from the first day of the year 0. -/
def dayNumber (year month day : Nat) : Nat :=
  daysBefore year + ((List.range (month - 1)).map fun m => daysIn year (m + 1)).foldr (· + ·) 0 + (day - 1)

/-- A date `year-month-day`, its month and day read by `two`. -/
def date (two : Text → Option (Nat × Text)) (t : Text) : Option (Nat × Text) := do
  let (year, t) ← exactly 4 t
  let (month, t) ← two (← after 45 t)
  let (day, t) ← two (← after 45 t)
  if 1 ≤ month ∧ month ≤ 12 ∧ 1 ≤ day ∧ day ≤ daysIn year month then
    some (dayNumber year month day, t)
  else none

/-- The nanoseconds of a fraction of a second, written after a point or comma. Digits after the
ninth are ignored. -/
def fraction : Text → Nat × Text
  | mark :: d :: rest =>
    if (mark = 46 ∨ mark = 44) ∧ isDigit d then
      let digits := d :: rest.takeWhile isDigit
      let kept := digits.take 9
      (digitsValue kept * Nat.pow 10 (9 - kept.length), rest.dropWhile isDigit)
    else (0, mark :: d :: rest)
  | t => (0, t)

/-- A time of day in nanoseconds, its minutes and seconds read by `two`. An hour may have a single
digit. -/
def timeOfDay (two : Text → Option (Nat × Text)) (t : Text) : Option (Nat × Text) := do
  let (hour, t) ← oneOrTwo t
  let (minute, t) ← two (← after 58 t)
  let (second, t) ← two (← after 58 t)
  if hour ≤ 23 ∧ minute ≤ 59 ∧ second ≤ 59 then
    let (nanos, t) := fraction t
    some (((hour * 60 + minute) * 60 + second) * 1000000000 + nanos, t)
  else none

/-- The distance of a time zone from universal time in seconds: `Z`, or a signed `hh:mm`. -/
def zone : Text → Option (Int × Text)
  | 90 :: t => some (0, t)
  | sign :: t => do
    let (hour, t) ← exactly 2 t
    let (minute, t) ← exactly 2 (← after 58 t)
    if hour ≤ 24 ∧ minute ≤ 60 then
      let seconds : Int := (hour * 60 + minute) * 60
      if sign = 43 then some (seconds, t)
      else if sign = 45 then some (-seconds, t)
      else none
    else none
  | [] => none

/-- A point in time as nanoseconds from the beginning of the year 0 in universal time, read from a
date and time of RFC 3339. -/
def instant? (t : Text) : Option Int := do
  let (day, t) ← date (exactly 2) t
  let (nanos, t) ← timeOfDay (exactly 2) (← after 84 t)
  let (offset, t) ← zone t
  if t = [] then some ((day * 86400 - offset) * 1000000000 + nanos) else none

end Lox.Clock
