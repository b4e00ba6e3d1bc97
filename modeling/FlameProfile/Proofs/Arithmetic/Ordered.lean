import Mathlib
import FlameProfile.Arithmetic.Floating
import FlameProfile.Arithmetic.Rational

/-!
# Ordered arithmetic

The merge of stacks compares offsets in two ways: by size, and by asking
whether two of them are the very same value. This module collects what is
needed of both. The rational numbers and the floating-point numbers satisfy it,
so a law that rests on nothing else holds of exact and of rounded arithmetic.

A floating-point number is compared through its degree: the class of its size,
its exponent and its mantissa, in this order of importance. A value that is no
number has no degree.
-/

namespace FlameProfile

/-- Strict comparison is an order, and identity is equality. -/
class OrderedArithmetic (Number : Type) [Arithmetic Number] : Prop where
  lt_irrefl : forall number : Number, ¬ number < number
  lt_trans : forall {first second third : Number},
    first < second -> second < third -> first < third
  identical_iff : forall {first second : Number},
    Arithmetic.identical first second = true ↔ first = second

instance : OrderedArithmetic Rat where
  lt_irrefl := lt_irrefl
  lt_trans := lt_trans
  identical_iff := decide_eq_true_iff

namespace Floating

open Float.Model (UnpackedFloat)

/-- The place of a value in the order of numbers, the most important part
first. -/
def degree : UnpackedFloat -> Option (Int ×ₗ Int ×ₗ Int)
  | .notANumber => none
  | .infinity .negative => some (toLex (-2, toLex (0, 0)))
  | .finite .negative mantissa exponent _ => some (toLex (-1, toLex (-exponent, -mantissa)))
  | .zero _ => some (toLex (0, toLex (0, 0)))
  | .finite .positive mantissa exponent _ => some (toLex (1, toLex (exponent, mantissa)))
  | .infinity .positive => some (toLex (2, toLex (0, 0)))

/-- Values compare as their degrees. -/
theorem unpacked_lt_iff
    (first second : UnpackedFloat) :
    first.lt second = true ↔
      ∃ low ∈ degree first, ∃ high ∈ degree second, low < high := by
  -- Each of the six shapes of a value meets each other one; only two finite
  -- values of the same sign look beyond the class of the size.
  rcases first with (_ | _) | _ | _ | ⟨_ | _, mantissa, exponent, _⟩ <;>
    rcases second with (_ | _) | _ | _ | ⟨_ | _, otherMantissa, otherExponent, _⟩ <;>
    simp [UnpackedFloat.lt, UnpackedFloat.compare, degree, Prod.Lex.toLex_lt_toLex, compare,
      compareOfLessAndEq, Ordering.swap, Ordering.then]
  case finite.negative.finite.negative =>
    split_ifs <;> grind
  case finite.positive.finite.positive =>
    split_ifs <;> grind

/-- Numbers compare as the degrees of their unpacked values. -/
theorem lt_iff
    (first second : Float) :
    first < second ↔
      ∃ low ∈ degree first.toModel.unpack,
        ∃ high ∈ degree second.toModel.unpack, low < high := by
  rw [← unpacked_lt_iff]
  exact decide_eq_true_iff

end Floating

instance : OrderedArithmetic Float where
  lt_irrefl number less := by
    obtain ⟨low, lowDegree, high, highDegree, below⟩ := (Floating.lt_iff number number).1 less
    rw [Option.mem_unique lowDegree highDegree] at below
    exact lt_irrefl high below
  lt_trans {first second third} firstLess secondLess := by
    obtain ⟨low, lowDegree, middle, middleDegree, below⟩ :=
      (Floating.lt_iff first second).1 firstLess
    obtain ⟨other, otherDegree, high, highDegree, above⟩ :=
      (Floating.lt_iff second third).1 secondLess
    rw [Option.mem_unique otherDegree middleDegree] at above
    exact (Floating.lt_iff first third).2
      ⟨low, lowDegree, high, highDegree, lt_trans below above⟩
  identical_iff {first second} := by
    obtain ⟨⟨firstBits, firstValid⟩⟩ := first
    obtain ⟨⟨secondBits, secondValid⟩⟩ := second
    refine decide_eq_true_iff.trans ⟨?_, congrArg Float.toBits⟩
    intro sameBits
    change firstBits = secondBits at sameBits
    subst sameBits
    rfl

end FlameProfile
