import Mathlib
import FlameProfile.Proofs.Arithmetic.Ordered

/-!
# Comparing floating-point numbers

A value is a number if it compares with itself. Numbers are totally ordered
between the two infinities, and the finite ones are those strictly between them.
So the greater of two values and a value moved into a range are bounded as one
expects, as long as the values that enter are numbers.
-/

namespace FlameProfile
namespace Floating

open Float.Model (UnpackedFloat)

variable {first second third low high value : Float}

/-! ## Weak comparison -/

/-- Unpacked values are in weak order if both have a degree and their degrees are. -/
theorem unpacked_le_iff
    (first second : UnpackedFloat) :
    first.le second = true ↔
      ∃ low ∈ degree first, ∃ high ∈ degree second, low ≤ high := by
  rcases first with (_ | _) | _ | _ | ⟨_ | _, mantissa, exponent, _⟩ <;>
    rcases second with (_ | _) | _ | _ | ⟨_ | _, otherMantissa, otherExponent, _⟩ <;>
    simp [UnpackedFloat.le, UnpackedFloat.compare, degree, Prod.Lex.toLex_le_toLex, compare,
      compareOfLessAndEq, Ordering.swap, Ordering.then, Ordering.isLE]
  case finite.negative.finite.negative =>
    split_ifs <;> grind
  case finite.positive.finite.positive =>
    split_ifs <;> grind

/-- A value is at most another if both have a degree and their degrees are in order. -/
theorem le_iff
    (first second : Float) :
    first ≤ second ↔
      ∃ low ∈ degree first.toModel.unpack,
        ∃ high ∈ degree second.toModel.unpack, low ≤ high := by
  rw [← unpacked_le_iff]
  exact decide_eq_true_iff

/-- Only a value that is no number has no degree. -/
theorem degree_eq_none_iff (value : UnpackedFloat) :
    degree value = none ↔ value.isNaN = true := by
  rcases value with (_ | _) | _ | _ | ⟨_ | _, mantissa, exponent, _⟩ <;>
    simp [degree, UnpackedFloat.isNaN]

/-- A value has a degree exactly if it is a number. -/
theorem exists_degree_iff (value : Float) :
    (∃ place, degree value.toModel.unpack = some place) ↔ value.isNaN = false := by
  rw [← Option.isSome_iff_exists, ← Bool.not_eq_true, ← Option.isNone_eq_false_iff,
    ← Bool.not_eq_true, Option.isNone_iff_eq_none, degree_eq_none_iff]
  rfl

/-- A value compares with itself exactly if it is a number. -/
theorem le_self_iff : value ≤ value ↔ value.isNaN = false := by
  rw [le_iff, ← exists_degree_iff]
  constructor
  · rintro ⟨place, isPlace, _⟩
    exact ⟨place, isPlace⟩
  · rintro ⟨place, isPlace⟩
    exact ⟨place, isPlace, place, isPlace, le_rfl⟩

/-- A value below another is also at most the other. -/
theorem le_of_lt (less : first < second) : first ≤ second := by
  obtain ⟨place, isPlace, other, isOther, below⟩ := (lt_iff first second).mp less
  exact (le_iff first second).mpr ⟨place, isPlace, other, isOther, below.le⟩

/-- Strict and weak order go together, the strict one first. -/
theorem lt_of_lt_of_le
    (firstLess : first < second)
    (secondLe : second ≤ third) :
    first < third := by
  obtain ⟨place, isPlace, middle, isMiddle, below⟩ := (lt_iff first second).mp firstLess
  obtain ⟨other, isOther, top, isTop, above⟩ := (le_iff second third).mp secondLe
  rw [Option.mem_unique isOther isMiddle] at above
  exact (lt_iff first third).mpr ⟨place, isPlace, top, isTop, below.trans_le above⟩

/-- Strict and weak order go together, the weak one first. -/
theorem lt_of_le_of_lt
    (firstLe : first ≤ second)
    (secondLess : second < third) :
    first < third := by
  obtain ⟨place, isPlace, middle, isMiddle, below⟩ := (le_iff first second).mp firstLe
  obtain ⟨other, isOther, top, isTop, above⟩ := (lt_iff second third).mp secondLess
  rw [Option.mem_unique isOther isMiddle] at above
  exact (lt_iff first third).mpr ⟨place, isPlace, top, isTop, below.trans_lt above⟩

/-- Numbers are totally ordered. -/
theorem le_of_not_lt
    (firstNumber : first.isNaN = false)
    (secondNumber : second.isNaN = false)
    (notLess : ¬ first < second) :
    second ≤ first := by
  obtain ⟨place, isPlace⟩ := (exists_degree_iff first).mpr firstNumber
  obtain ⟨other, isOther⟩ := (exists_degree_iff second).mpr secondNumber
  refine (le_iff second first).mpr ⟨other, isOther, place, isPlace, ?_⟩
  by_contra above
  exact notLess ((lt_iff first second).mpr ⟨place, isPlace, other, isOther, not_le.mp above⟩)

/-- Only numbers compare. -/
theorem isNaN_of_le (below : first ≤ second) : first.isNaN = false ∧ second.isNaN = false := by
  obtain ⟨place, isPlace, other, isOther, _⟩ := (le_iff first second).mp below
  exact ⟨(exists_degree_iff first).mp ⟨place, isPlace⟩,
    (exists_degree_iff second).mp ⟨other, isOther⟩⟩

/-- Only numbers are below one another. -/
theorem isNaN_of_lt (less : first < second) : first.isNaN = false ∧ second.isNaN = false :=
  isNaN_of_le (le_of_lt less)

/-! ## Finite numbers -/

/-- The degree of infinity is above that of every finite number. -/
theorem degree_inf :
    degree Float.inf.toModel.unpack = some (toLex (2, toLex (0, 0))) := by
  decide +kernel

/-- The degree of negative infinity is below that of every finite number. -/
theorem degree_neg_inf :
    degree (-Float.inf).toModel.unpack = some (toLex (-2, toLex (0, 0))) := by
  decide +kernel

/-- Finite numbers lie strictly between the infinities. -/
theorem isFinite_iff : value.isFinite = true ↔ -Float.inf < value ∧ value < Float.inf := by
  rw [lt_iff, lt_iff, degree_inf, degree_neg_inf]
  change value.toModel.unpack.isFinite = true ↔ _
  rcases value.toModel.unpack with (_ | _) | _ | _ | ⟨_ | _, mantissa, exponent, _⟩ <;>
    simp [degree, UnpackedFloat.isFinite, Prod.Lex.toLex_lt_toLex]

/-- What is finite is a number. -/
theorem isNaN_of_isFinite (finite : value.isFinite = true) : value.isNaN = false :=
  (isNaN_of_lt (isFinite_iff.mp finite).1).2

/-- What lies between finite numbers is finite. -/
theorem isFinite_of_between
    (lowFinite : low.isFinite = true)
    (highFinite : high.isFinite = true)
    (above : low ≤ value)
    (below : value ≤ high) :
    value.isFinite = true :=
  isFinite_iff.mpr ⟨lt_of_lt_of_le (isFinite_iff.mp lowFinite).1 above,
    lt_of_le_of_lt below (isFinite_iff.mp highFinite).2⟩

/-! ## Bounded values -/

/-- The larger of a number and a value is the value only if that is greater. -/
theorem larger_of_number
    (number : first.isNaN = false) :
    Arithmetic.larger first second = if first < second then second else first :=
  if_pos (le_self_iff.mpr number)

/-- Of two numbers the second is at most the larger one. -/
theorem le_larger
    (firstNumber : first.isNaN = false)
    (secondNumber : second.isNaN = false) :
    second ≤ Arithmetic.larger first second := by
  rw [larger_of_number firstNumber]
  split
  next => exact le_self_iff.mpr secondNumber
  next notLess => exact le_of_not_lt firstNumber secondNumber notLess

/-- The greater of a number and a finite one is finite unless the number is
infinite. -/
theorem isFinite_larger_iff
    (firstNumber : first.isNaN = false)
    (secondFinite : second.isFinite = true) :
    (Arithmetic.larger first second).isFinite = true ↔ first < Float.inf := by
  obtain ⟨secondAbove, secondBelow⟩ := isFinite_iff.mp secondFinite
  rw [larger_of_number firstNumber]
  split
  next less => exact ⟨fun _ => OrderedArithmetic.lt_trans less secondBelow, fun _ => secondFinite⟩
  next notLess =>
    have above := le_of_not_lt firstNumber (isNaN_of_isFinite secondFinite) notLess
    exact ⟨fun finite => (isFinite_iff.mp finite).2,
      fun below => isFinite_iff.mpr ⟨lt_of_lt_of_le secondAbove above, below⟩⟩

/-- A number that is moved into a range lies in it. -/
theorem clamp_mem
    (range : low ≤ high)
    (number : value.isNaN = false) :
    low ≤ Arithmetic.clamp low high value ∧ Arithmetic.clamp low high value ≤ high := by
  obtain ⟨lowNumber, highNumber⟩ := isNaN_of_le range
  rw [Arithmetic.clamp]
  split
  next => exact ⟨le_self_iff.mpr lowNumber, range⟩
  next notBelow =>
    split
    next => exact ⟨range, le_self_iff.mpr highNumber⟩
    next notAbove =>
      exact ⟨le_of_not_lt number lowNumber notBelow, le_of_not_lt highNumber number notAbove⟩

/-- A value that is no number is not moved. -/
theorem clamp_of_isNaN
    (noNumber : value.isNaN = true) :
    Arithmetic.clamp low high value = value := by
  rw [Arithmetic.clamp, if_neg, if_neg]
  · intro above
    exact absurd (noNumber.symm.trans (isNaN_of_lt above).2) (by decide)
  · intro below
    exact absurd (noNumber.symm.trans (isNaN_of_lt below).1) (by decide)

end Floating
end FlameProfile
