import FlameProfile.Decimal.Binary

/-!
# Decimals with a fixed number of places

The exact value of a number is rounded to the given number of places, a value
halfway between two decimals to the even one. A negative number keeps its sign
even when it is rounded to zero.
-/

namespace FlameProfile
namespace Decimal

/-- Round a quotient to the nearest natural number, a half to the even one. -/
def roundQuotient (numerator denominator : Nat) : Nat :=
  match compare (2 * (numerator % denominator)) denominator with
  | .lt => numerator / denominator
  | .gt => numerator / denominator + 1
  | .eq =>
      if numerator / denominator % 2 = 0 then
        numerator / denominator
      else
        numerator / denominator + 1

/-- Write a natural number of units of the last place. -/
def writeUnits
    (places : Nat)
    (units : Nat) : List Char :=
  let digits := Nat.toDigits 10 units
  let padded := List.replicate (places + 1 - digits.length) '0' ++ digits
  if places = 0 then
    padded
  else
    padded.take (padded.length - places) ++ '.' :: padded.drop (padded.length - places)

/-- Text of a number with a fixed number of places. -/
def fixed
    (places : Nat)
    (number : Float) : String :=
  if number.isNaN then
    "NaN"
  else
    let sign := if Binary.isNegative number then "-" else ""
    if number.isFinite then
      let value := Binary.ofFloat number
      sign ++ String.ofList
        (writeUnits places
          (roundQuotient (value.numerator * Nat.pow 10 places) value.denominator))
    else
      sign ++ "inf"

end Decimal
end FlameProfile
