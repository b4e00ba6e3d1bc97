/-!
# Moments in universal time

A moment is counted in nanoseconds from the beginning of the year 1970. Written
out it is a date of the calendar and a time of day in universal time, with as
many groups of three digits behind the second as it takes.
-/

namespace FlameProfile
namespace Moment

/-- Year, month and day of a day that is counted from the beginning of 1970.
Years are taken to begin in March, so that a leap day is the last day of its
year, and are counted in spans of four hundred, which are all equally long. -/
def date (day : Nat) : Nat × Nat × Nat :=
  let shifted := day + 719468
  let span := shifted / 146097
  let inSpan := shifted % 146097
  let yearInSpan := (inSpan - inSpan / 1460 + inSpan / 36524 - inSpan / 146096) / 365
  let inYear := inSpan - (365 * yearInSpan + yearInSpan / 4 - yearInSpan / 100)
  let marchMonth := (5 * inYear + 2) / 153
  let dayOfMonth := inYear - (153 * marchMonth + 2) / 5 + 1
  let month := if marchMonth < 10 then marchMonth + 3 else marchMonth - 9
  let year := yearInSpan + span * 400 + (if month ≤ 2 then 1 else 0)
  (year, month, dayOfMonth)

example : date 0 = (1970, 1, 1) := by decide

example : date 19782 = (2024, 2, 29) := by decide

/-- Digits of a count, filled up with zeros to a width. -/
def padded
    (width value : Nat) : String :=
  let digits := Nat.toDigits 10 value
  String.ofList (List.replicate (width - digits.length) '0' ++ digits)

/-- Digits behind the second. -/
def fraction (nanoseconds : Nat) : String :=
  if nanoseconds = 0 then
    ""
  else if nanoseconds % 1000000 = 0 then
    "." ++ padded 3 (nanoseconds / 1000000)
  else if nanoseconds % 1000 = 0 then
    "." ++ padded 6 (nanoseconds / 1000)
  else
    "." ++ padded 9 nanoseconds

/-- Text of a moment. -/
def write (nanoseconds : Nat) : String :=
  let seconds := nanoseconds / 1000000000
  let inDay := seconds % 86400
  let (year, month, day) := date (seconds / 86400)
  padded 4 year ++ "-" ++ padded 2 month ++ "-" ++ padded 2 day ++ "T" ++
    padded 2 (inDay / 3600) ++ ":" ++ padded 2 (inDay / 60 % 60) ++ ":" ++
    padded 2 (inDay % 60) ++ fraction (nanoseconds % 1000000000) ++ "+00:00"

end Moment
end FlameProfile
