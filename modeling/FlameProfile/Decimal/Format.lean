import FlameProfile.Decimal.Shortest

/-!
# Texts of shortest decimals

A format decides how the shortest decimal of a number is laid out: which sizes
are written positionally, whether a whole number keeps a point, how an exponent
is signed and what stands for values that are no finite number.
-/

namespace FlameProfile
namespace Decimal

/-- Decisions about the text of a number. -/
structure Format where
  /-- Exponents of the leading digit that are written positionally, from the
  first bound to below the second; without bounds every exponent is. -/
  positional : Option (Int × Int)
  /-- Whether a positional whole number ends in a point and a zero. -/
  keepsPoint : Bool
  /-- Whether a positive exponent has a plus sign. -/
  signsExponent : Bool
  /-- Which of two equally near shortest decimals is written. -/
  tie : Tie
  /-- Text of a value that is no number. -/
  notNumber : String
  /-- Text of positive infinity. -/
  infinity : String
  /-- Text of negative infinity. -/
  negativeInfinity : String

namespace Format

/-- Always positional, whole numbers without a point. -/
def plain : Format where
  positional := none
  keepsPoint := false
  signsExponent := false
  tie := .upward
  notNumber := "NaN"
  infinity := "inf"
  negativeInfinity := "-inf"

/-- Positional from `1e-4` to below `1e16`, whole numbers with a point. -/
def tagged : Format where
  positional := some (-4, 16)
  keepsPoint := true
  signsExponent := false
  tie := .upward
  notNumber := "NaN"
  infinity := "inf"
  negativeInfinity := "-inf"

/-- Digits with the point after the first `before` of them. -/
def placePoint
    (format : Format)
    (digits : List Char)
    (before : Int) : List Char :=
  if before ≤ 0 then
    '0' :: '.' :: (List.replicate (-before).toNat '0' ++ digits)
  else if digits.length ≤ before.toNat then
    digits ++ List.replicate (before.toNat - digits.length) '0' ++
      (if format.keepsPoint then ['.', '0'] else [])
  else
    digits.take before.toNat ++ '.' :: digits.drop before.toNat

/-- Digits with the point after the first of them, and an exponent. -/
def placeExponent
    (format : Format)
    (digits : List Char)
    (exponent : Int) : List Char :=
  let mantissa :=
    match digits with
    | first :: second :: rest => first :: '.' :: second :: rest
    | short => short
  let sign :=
    if exponent < 0 then ['-'] else if format.signsExponent then ['+'] else []
  mantissa ++ 'e' :: sign ++ Nat.toDigits 10 exponent.natAbs

/-- Lay out a decimal without a sign. -/
def layOut
    (format : Format)
    (decimal : Decimal) : List Char :=
  let digits := Nat.toDigits 10 decimal.digits
  let leading := digits.length - 1 + decimal.exponent
  match format.positional with
  | none => format.placePoint digits (leading + 1)
  | some (lowest, limit) =>
      if lowest ≤ leading ∧ leading < limit then
        format.placePoint digits (leading + 1)
      else
        format.placeExponent digits leading

/-- Text of a number. -/
def write
    (format : Format)
    (number : Float) : String :=
  if number.isNaN then
    format.notNumber
  else if number.isFinite then
    let value := Binary.ofFloat number
    let decimal := if value.significand = 0 then ⟨0, 0⟩ else shortest format.tie value
    let sign := if Binary.isNegative number then "-" else ""
    sign ++ String.ofList (format.layOut decimal)
  else if Binary.isNegative number then
    format.negativeInfinity
  else
    format.infinity

end Format
end Decimal
end FlameProfile
