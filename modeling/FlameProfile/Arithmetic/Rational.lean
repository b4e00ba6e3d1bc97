import Mathlib
import FlameProfile.Arithmetic

/-!
# Exact arithmetic

The rational numbers carry the operations of the library without rounding. Laws
of exact arithmetic are statements about the library at this instance.
-/

namespace FlameProfile

instance : Arithmetic Rat where
  ltDecidable := inferInstance
  leDecidable := inferInstance
  ofCount count := (count : Rat)
  isFinite _ := true
  wholePart number := number.floor.toNat
  ceiling number := number.ceil.toNat
  rank first second := compareOfLessAndEq first second
  identical first second := first = second

namespace Arithmetic

/-- Exact numbers are ranked as they compare. -/
theorem rank_eq_compare (first second : Rat) : rank first second = compare first second :=
  (LinearOrder.compare_eq_compareOfLessAndEq first second).symm

/-- In exact arithmetic it does not matter where a sum begins. -/
theorem sum_eq_sum (values : List Rat) : sum values = values.sum := by
  rw [sum, neg_zero, List.sum_eq_foldl]

/-- The distance of an exact number from zero is its absolute value. -/
theorem magnitude_eq_abs (number : Rat) : magnitude number = |number| := by
  rw [magnitude]
  split
  next negative => exact (abs_of_neg negative).symm
  next nonneg => exact (abs_of_nonneg (not_lt.mp nonneg)).symm

end Arithmetic
end FlameProfile
