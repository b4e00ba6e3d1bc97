/-!
# Arithmetic of times and weights

Timestamps, durations, weights and pixel positions are all measured in one
type of numbers. The library is written once over the operations collected
here. It runs on binary floating point; the rational numbers carry the same
operations, so that a law of exact arithmetic can be stated about the very
definitions that run.

Comparisons are partial: a value that is no number compares with nothing.
`larger`, `smaller` and `clamp` say what happens to such a value.
-/

namespace FlameProfile

/-- The operations that measuring, merging and drawing need of a number. -/
class Arithmetic (Number : Type) extends
    Zero Number, Add Number, Sub Number, Mul Number, Div Number, Neg Number,
    LT Number, LE Number, OfScientific Number where
  /-- Strict comparison is decidable. -/
  ltDecidable : DecidableLT Number
  /-- Weak comparison is decidable. -/
  leDecidable : DecidableLE Number
  /-- The number of a count. -/
  ofCount : Nat -> Number
  /-- Whether a value is a number and not infinite. -/
  isFinite : Number -> Bool
  /-- The whole part of a non-negative number, zero for every other value. -/
  wholePart : Number -> Nat
  /-- The least count that is not below a number. -/
  ceiling : Number -> Nat
  /-- A total order of all values that extends the numerical order. -/
  rank : Number -> Number -> Ordering
  /-- Whether two values are the same value, and not merely equal numbers. -/
  identical : Number -> Number -> Bool

namespace Arithmetic

variable {Number : Type} [Arithmetic Number]

instance : DecidableLT Number := ltDecidable

instance : DecidableLE Number := leDecidable

/-- The greater of two values; a value that is no number gives way. -/
def larger
    (first second : Number) : Number :=
  if first ≤ first then
    if first < second then second else first
  else
    second

/-- The lesser of two values; a value that is no number gives way. -/
def smaller
    (first second : Number) : Number :=
  if first ≤ first then
    if second < first then second else first
  else
    second

/-- Move a value into the range from `low` to `high`. A value that is no
number lies on neither side of the range and stays. -/
def clamp
    (low high value : Number) : Number :=
  if value < low then low
  else if high < value then high
  else value

/-- The distance of a value from zero. -/
def magnitude (value : Number) : Number :=
  if value < 0 then -value else value

/-- Sum from left to right. The empty sum is the negated zero, the one neutral
element that also keeps the sign of a zero. -/
def sum (values : List Number) : Number :=
  values.foldl (fun total value => total + value) (-0)

@[simp] theorem sum_nil : sum ([] : List Number) = -0 := rfl

@[simp] theorem sum_append_singleton
    (values : List Number)
    (value : Number) :
    sum (values ++ [value]) = sum values + value := by
  simp [sum]

/-- Order two values as numbers; values that do not compare count as equal. -/
def order
    (first second : Number) : Ordering :=
  if first < second then .lt
  else if second < first then .gt
  else .eq

end Arithmetic
end FlameProfile
