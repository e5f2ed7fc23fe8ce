/-
  Times of day as text.

  A time counts microseconds from the start of 1970 in universal time. Its text
  is the date, the time and the offset zero, with a fraction of six digits
  unless that is zero.
-/

namespace Formulary.Clock

/-- A number with at least `width` digits. -/
def padded (width n : Nat) : String :=
  let digits := Nat.toDigits 10 n
  String.ofList (List.replicate (width - digits.length) '0' ++ digits)

/-- Year, month and day of a day counted from the start of 1970. Days are counted
from a first of March, so that a leap day ends its year, in cycles of four
hundred years. -/
def date (day : Nat) : Nat × Nat × Nat :=
  let fromMarch := day + 719468
  let cycle := fromMarch / 146097
  let inCycle := fromMarch % 146097
  let year := (inCycle - inCycle / 1460 + inCycle / 36524 - inCycle / 146096) / 365
  let inYear := inCycle - (365 * year + year / 4 - year / 100)
  let month := (5 * inYear + 2) / 153
  let inMonth := inYear - (153 * month + 2) / 5 + 1
  if month < 10 then (400 * cycle + year, month + 3, inMonth)
  else (400 * cycle + year + 1, month - 9, inMonth)

def text (micros : Nat) : String :=
  let seconds := micros / 1000000
  let fraction := micros % 1000000
  let (year, month, day) := date (seconds / 86400)
  let inDay := seconds % 86400
  padded 4 year ++ "-" ++ padded 2 month ++ "-" ++ padded 2 day ++ "T" ++
    padded 2 (inDay / 3600) ++ ":" ++ padded 2 (inDay / 60 % 60) ++ ":" ++
    padded 2 (inDay % 60) ++
    (if fraction = 0 then "" else "." ++ padded 6 fraction) ++ "+00:00"

end Formulary.Clock
