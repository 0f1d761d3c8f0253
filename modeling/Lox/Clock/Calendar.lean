import Lox.Clock.Instant

/-! Points in time in their written form. -/
namespace Lox.Clock

/-- The year of a day that is counted from the first day of the year 0. -/
def yearOf (day : Nat) : Nat :=
  -- 400 years have 146097 days, so the estimate is off by one at most
  let guess := day * 400 / 146097
  if daysBefore (guess + 1) ≤ day then guess + 1
  else if daysBefore guess ≤ day then guess
  else guess - 1

/-- The month, and the day in it, of a day that is counted from the first day of month `month`. -/
def monthOf (year : Nat) : (months month day : Nat) → Nat × Nat
  | 0, month, day => (month, day + 1)
  | months + 1, month, day =>
    if day < daysIn year month then (month, day + 1)
    else monthOf year months (month + 1) (day - daysIn year month)

/-- The last `width` decimal digits of a number. -/
def digits (width n : Nat) : Text :=
  let t := Text.ofNat n
  List.replicate (width - t.length) 48 ++ t

def epoch : Nat := dayNumber 1970 1 1

/-- A time in universal time with so many places of a second, from the nanoseconds since 1970. -/
def written (places nanoseconds : Nat) : Text :=
  let seconds := nanoseconds / 1000000000
  let day := epoch + seconds / 86400
  let year := yearOf day
  let (month, date) := monthOf year 11 1 (day - daysBefore year)
  Text.concat
    [digits 4 year, "-", digits 2 month, "-", digits 2 date, "T",
     digits 2 (seconds / 3600 % 24), ":", digits 2 (seconds / 60 % 60), ":",
     digits 2 (seconds % 60), ".",
     digits places (nanoseconds % 1000000000 / Nat.pow 10 (9 - places)), "Z"]

end Lox.Clock
