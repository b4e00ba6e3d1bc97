import FlameProfile.Decimal.Fixed
import FlameProfile.Decimal.Format

/-!
# Texts of measured numbers

Reports and drawings show numbers in two ways: with a fixed number of places,
and by the shortest decimal without an exponent. Both are operations of the
type of numbers, so a report is a function of the numbers it shows whatever
their type.
-/

namespace FlameProfile

/-- Numbers that can be shown in reports and drawings. -/
class NumberText (Number : Type) where
  /-- Text with a fixed number of places. -/
  fixed : Nat -> Number -> String
  /-- Shortest text, always positional. -/
  plain : Number -> String

namespace NumberText

/-- Text with a fixed number of places and a sign before every number. -/
def signed
    {Number : Type}
    [NumberText Number]
    (places : Nat)
    (number : Number) : String :=
  let text := fixed places number
  if text.toList.head? = some '-' ∨ text = "NaN" then text else "+" ++ text

end NumberText

instance : NumberText Float where
  fixed := Decimal.fixed
  plain := Decimal.Format.plain.write

end FlameProfile
