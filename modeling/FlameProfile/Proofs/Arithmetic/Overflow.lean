import Mathlib
import FlameProfile.Proofs.Arithmetic.Comparison

/-!
# Sums and differences that overflow

The sum or the difference of two finite numbers is always a number, but it may be
infinite; the difference of two infinities is no number. Rounding does not pass a
bound that is itself on the grid that is rounded to. So a difference of finite
numbers that does not exceed the greatest finite number is finite, in particular
the difference of two numbers that are not negative.
-/

namespace FlameProfile
namespace Floating

open Float.Model (UnpackedFloat Format totalExponent)
open Float.Model.UnpackedFloat (ExtendedMantissa Sign)

/-! ## Packing -/

/-- A packed value is finite unless its exponent is the one kept for values that
are not. -/
theorem isFinite_unpack_iff (bits : BitVec Format.binary64.numBits) :
    (UnpackedFloat.unpack .binary64 bits).isFinite = true ↔
      UnpackedFloat.unpackExponent bits ≠ -1#11 := by
  rw [UnpackedFloat.unpack]
  split
  next special =>
    refine iff_of_false ?_ (not_not_intro special)
    split <;> exact Bool.false_ne_true
  next ordinary =>
    refine iff_of_true ?_ ordinary
    split
    · split <;> rfl
    · rfl

/-- Of the values that are not finite, the infinities have no mantissa. -/
theorem isNaN_unpack_iff (bits : BitVec Format.binary64.numBits) :
    (UnpackedFloat.unpack .binary64 bits).isNaN = true ↔
      UnpackedFloat.unpackExponent bits = -1#11 ∧
        UnpackedFloat.unpackMantissa bits ≠ 0#52 := by
  rw [UnpackedFloat.unpack]
  split
  next special =>
    rw [and_iff_right special]
    split
    next none => exact iff_of_false Bool.false_ne_true (not_not_intro none)
    next some => exact iff_of_true rfl some
  next ordinary =>
    refine iff_of_false ?_ fun both => ordinary both.1
    split
    · split <;> exact Bool.false_ne_true
    · exact Bool.false_ne_true

section Finite

variable {sign : Sign} {mantissa : Nat} {exponent : Int} {positive : 0 < mantissa}

/-- The exponent of a finite value fits up to that of the greatest number. -/
theorem unpackExponent_pack
    (fits : exponent ≤ 971) :
    @UnpackedFloat.unpackExponent .binary64
      (UnpackedFloat.pack .binary64 (.finite sign mantissa exponent positive)) ≠ -1#11 := by
  have bias : ((Format.exponentBias .binary64 : Nat) : Int) = 1023 := rfl
  rw [UnpackedFloat.pack, if_neg (by simp [bias]; omega)]
  split
  next =>
    rw [UnpackedFloat.unpackExponent_packComponents]
    intro special
    have same := congrArg BitVec.toNat special
    simp [bias] at same
    omega
  next =>
    rw [UnpackedFloat.unpackExponent_packComponents]
    decide

/-- A finite value that does not fit becomes infinite. -/
theorem pack_of_overflow
    (tooLarge : ¬ exponent ≤ 971) :
    UnpackedFloat.pack .binary64 (.finite sign mantissa exponent positive) =
      UnpackedFloat.packedInfinity .binary64 sign := by
  have bias : ((Format.exponentBias .binary64 : Nat) : Int) = 1023 := rfl
  rw [UnpackedFloat.pack, if_pos (by simp [bias]; omega)]

end Finite

/-- An infinity is a number also when it is packed. -/
theorem isNaN_unpack_packedInfinity (sign : Sign) :
    (UnpackedFloat.unpack .binary64 (UnpackedFloat.packedInfinity .binary64 sign)).isNaN =
      false := by
  rw [← Bool.not_eq_true, isNaN_unpack_iff, UnpackedFloat.packedInfinity,
    UnpackedFloat.unpackMantissa_packComponents]
  exact fun both => both.2 rfl

/-- Packing makes no number into a value that is none. -/
theorem isNaN_unpack_pack
    {value : UnpackedFloat}
    (number : value.isNaN = false) :
    (UnpackedFloat.unpack .binary64 (value.pack .binary64)).isNaN = false := by
  cases value with
  | notANumber => exact absurd number (by decide)
  | infinity sign => exact isNaN_unpack_packedInfinity sign
  | zero sign =>
      rw [UnpackedFloat.pack, UnpackedFloat.unpack_packedZero]
      rfl
  | finite sign mantissa exponent positive =>
      by_cases fits : exponent ≤ 971
      · rw [← Bool.not_eq_true, isNaN_unpack_iff]
        exact fun both => unpackExponent_pack fits both.1
      · rw [pack_of_overflow fits]
        exact isNaN_unpack_packedInfinity sign

/-! ## Sums and differences are numbers -/

/-- Rounding gives a number. -/
theorem isNaN_round
    (sign : Sign)
    (mantissa : Nat)
    (exponent : Int) :
    (UnpackedFloat.round .binary64 sign mantissa exponent).isNaN = false := by
  unfold UnpackedFloat.round UnpackedFloat.roundWithAccuracy
  dsimp only
  split <;> rfl

/-- A signed mantissa with an exponent is rounded to a number. -/
theorem isNaN_normalize
    (mantissa exponent : Int)
    (zeroSign : Sign) :
    (UnpackedFloat.normalize .binary64 mantissa exponent zeroSign).isNaN = false := by
  rw [UnpackedFloat.normalize]
  split
  · exact isNaN_round _ _ _
  · rfl
  · exact isNaN_round _ _ _

/-- A finite value less a number is a number. -/
theorem isNaN_unpacked_sub
    {first second : UnpackedFloat}
    (firstFinite : first.isFinite = true)
    (secondNumber : second.isNaN = false) :
    (first.sub .binary64 second).isNaN = false := by
  cases first with
  | notANumber | infinity => exact absurd firstFinite Bool.false_ne_true
  | zero sign =>
      cases second with
      | notANumber => exact absurd secondNumber (by decide)
      | zero other =>
          rw [UnpackedFloat.sub]
          split <;> rfl
      | infinity | finite => rfl
  | finite sign mantissa exponent positive =>
      cases second with
      | notANumber => exact absurd secondNumber (by decide)
      | infinity | zero => rfl
      | finite => exact isNaN_normalize _ _ _

/-- A number and a finite value add up to a number. -/
theorem isNaN_unpacked_add
    {first second : UnpackedFloat}
    (firstNumber : first.isNaN = false)
    (secondFinite : second.isFinite = true) :
    (first.add .binary64 second).isNaN = false := by
  cases second with
  | notANumber | infinity => exact absurd secondFinite Bool.false_ne_true
  | zero sign =>
      cases first with
      | notANumber => exact absurd firstNumber (by decide)
      | zero other =>
          rw [UnpackedFloat.add]
          split <;> rfl
      | infinity | finite => rfl
  | finite sign mantissa exponent positive =>
      cases first with
      | notANumber => exact absurd firstNumber (by decide)
      | infinity | zero => rfl
      | finite => exact isNaN_normalize _ _ _

/-- A number taken from a finite one leaves a number. -/
theorem isNaN_sub
    {first second : Float}
    (firstFinite : first.isFinite = true)
    (secondNumber : second.isNaN = false) :
    (first - second).isNaN = false :=
  isNaN_unpack_pack (isNaN_unpacked_sub firstFinite secondNumber)

/-- A finite number added to a number gives a number. -/
theorem isNaN_add
    {first second : Float}
    (firstNumber : first.isNaN = false)
    (secondFinite : second.isFinite = true) :
    (first + second).isNaN = false :=
  isNaN_unpack_pack (isNaN_unpacked_add firstNumber secondFinite)

/-- A sum with something that is not finite is no number or infinite. -/
theorem unpacked_add_of_not_isFinite
    {first second : UnpackedFloat}
    (notBoth : ¬ (first.isFinite = true ∧ second.isFinite = true)) :
    first.add .binary64 second = .notANumber ∨
      ∃ sign, first.add .binary64 second = .infinity sign := by
  cases first <;> cases second
  case infinity.infinity =>
    rw [UnpackedFloat.add]
    split <;> simp
  -- of a number and an infinity the sum is that infinity
  all_goals first
    | exact .inl rfl
    | exact .inr ⟨_, rfl⟩
    | exact absurd ⟨rfl, rfl⟩ notBoth

/-- Of a finite sum both parts are finite. -/
theorem isFinite_of_isFinite_add
    {first second : Float}
    (finite : (first + second).isFinite = true) :
    first.isFinite = true ∧ second.isFinite = true := by
  change (UnpackedFloat.unpack .binary64 (UnpackedFloat.pack .binary64
    (first.toModel.unpack.add .binary64 second.toModel.unpack))).isFinite = true at finite
  by_contra notBoth
  rcases unpacked_add_of_not_isFinite notBoth with noNumber | ⟨sign, infinite⟩
  · rw [noNumber] at finite
    exact absurd finite (by decide)
  · rw [infinite] at finite
    exact absurd finite (by cases sign <;> decide)

/-! ## Rounding keeps bounds -/

/-- A mantissa that is a multiple of what is shifted away stays exact. -/
theorem shiftRight_exact
    (mantissa amount : Nat) :
    (⟨mantissa * 2 ^ amount, false, false⟩ : ExtendedMantissa) >>> amount =
      ⟨mantissa, false, false⟩ := by
  induction amount generalizing mantissa with
  | zero => simp [HShiftRight.hShiftRight, Nat.repeat]
  | succ amount inductionHypothesis =>
      change ExtendedMantissa.shiftRightOne ((_ : ExtendedMantissa) >>> amount) = _
      rw [pow_succ', ← mul_assoc, inductionHypothesis, ExtendedMantissa.shiftRightOne]
      simp

/-- To shift a mantissa to the right halves it once for each place. -/
theorem mantissa_shiftRight
    (extended : ExtendedMantissa)
    (amount : Nat) :
    (extended >>> amount).mantissa = extended.mantissa / 2 ^ amount := by
  induction amount with
  | zero => simp [HShiftRight.hShiftRight, Nat.repeat]
  | succ amount inductionHypothesis =>
      change (extended >>> amount).mantissa / 2 = _
      rw [inductionHypothesis, Nat.div_div_eq_div_mul, pow_succ]

/-- Rounding adds at most one to a mantissa. -/
theorem roundedMantissa_le (extended : ExtendedMantissa) :
    extended.roundedMantissa ≤ extended.mantissa + 1 := by
  obtain ⟨mantissa, roundBit, stickyBit⟩ := extended
  cases roundBit <;> cases stickyBit <;>
    simp [ExtendedMantissa.roundedMantissa, ExtendedMantissa.accuracy,
      UnpackedFloat.Accuracy.roundToNearestEven]
  omega

/-- Rounding does not pass a bound on the grid that is rounded to. -/
theorem roundedMantissa_shiftRight_le
    {mantissa bound amount : Nat}
    (below : mantissa ≤ bound * 2 ^ amount) :
    ((⟨mantissa, false, false⟩ : ExtendedMantissa) >>> amount).roundedMantissa ≤ bound := by
  rcases below.eq_or_lt with rfl | less
  · rw [shiftRight_exact]
    rfl
  · have floor := mantissa_shiftRight ⟨mantissa, false, false⟩ amount
    have strict : mantissa / 2 ^ amount < bound := Nat.div_lt_of_lt_mul (by rwa [mul_comm])
    have rounded := roundedMantissa_le ((⟨mantissa, false, false⟩ : ExtendedMantissa) >>> amount)
    rw [floor] at rounded
    exact rounded.trans strict

/-- The greatest finite number, in units of the power of two with an exponent. -/
def greatest (exponent : Int) : Nat :=
  (2 ^ 53 - 1) * 2 ^ (971 - exponent).toNat

/-- In a smaller unit the greatest finite number counts more, by the power of two between them.
-/
theorem greatest_sub
    {exponent : Int}
    (fits : exponent ≤ 971)
    (amount : Nat) :
    greatest (exponent - amount) = greatest exponent * 2 ^ amount := by
  have more : (971 - (exponent - amount)).toNat = (971 - exponent).toNat + amount := by omega
  rw [greatest, more, pow_add, ← mul_assoc, greatest]

/-- What is at most the greatest finite number is not shifted beyond its
exponent. -/
theorem targetExponent_le
    {mantissa : Nat}
    {exponent : Int}
    (fits : exponent ≤ 971)
    (bounded : mantissa ≤ greatest exponent) :
    Format.binary64.targetExponent (totalExponent mantissa exponent) ≤ 971 := by
  have digits : mantissa.log2 < 53 + (971 - exponent).toNat := by
    by_cases zero : mantissa = 0
    · rw [zero, Nat.log2_zero]
      omega
    · rw [Nat.log2_lt zero, pow_add]
      apply bounded.trans_lt
      exact Nat.mul_lt_mul_of_pos_right (by decide) (Nat.two_pow_pos _)
  simp [Format.targetExponent, totalExponent, Format.mantissaBits, Format.minExponent]
  omega

/-- Shifting to the exponent that the format wants keeps all of a mantissa that is
not too great, and stays within the exponents of finite numbers. -/
theorem shiftToTargetExponent_eq
    {mantissa : Nat}
    {exponent : Int}
    (fits : exponent ≤ 971)
    (bounded : mantissa ≤ greatest exponent) :
    ∃ amount : Nat, exponent + amount ≤ 971 ∧
      UnpackedFloat.shiftToTargetExponent .binary64 mantissa exponent .exact =
        ((⟨mantissa, false, false⟩ : ExtendedMantissa) >>> amount, exponent + amount) := by
  have target := targetExponent_le fits bounded
  refine ⟨(Format.binary64.targetExponent (totalExponent mantissa exponent) - exponent).toNat,
    by omega, rfl⟩

/-- A value that stays finite when it is packed. -/
def Fits : UnpackedFloat → Prop
  | .zero _ => True
  | .finite _ _ exponent _ => exponent ≤ 971
  | .infinity _ => False
  | .notANumber => False

/-- What fits is finite when it is packed and unpacked again. -/
theorem Fits.isFinite_unpack_pack
    {value : UnpackedFloat}
    (fits : Fits value) :
    (UnpackedFloat.unpack .binary64 (value.pack .binary64)).isFinite = true := by
  cases value with
  | notANumber | infinity => exact fits.elim
  | zero sign =>
      rw [UnpackedFloat.pack, UnpackedFloat.unpack_packedZero]
      rfl
  | finite => exact (isFinite_unpack_iff _).mpr (unpackExponent_pack fits)

/-- Rounding keeps within the greatest finite number, which is on the grid. -/
theorem fits_roundWithAccuracy
    {mantissa : Nat}
    {exponent : Int}
    (sign : Sign)
    (fits : exponent ≤ 971)
    (bounded : mantissa ≤ greatest exponent) :
    Fits (UnpackedFloat.roundWithAccuracy .binary64 sign mantissa exponent .exact) := by
  obtain ⟨amount, firstFits, firstShift⟩ := shiftToTargetExponent_eq fits bounded
  have rounded : ((⟨mantissa, false, false⟩ : ExtendedMantissa) >>> amount).roundedMantissa ≤
      greatest (exponent + amount) := by
    apply roundedMantissa_shiftRight_le
    rwa [← greatest_sub firstFits, add_sub_cancel_right]
  obtain ⟨more, secondFits, secondShift⟩ := shiftToTargetExponent_eq firstFits rounded
  rw [UnpackedFloat.roundWithAccuracy, firstShift]
  simp only [secondShift]
  split
  · trivial
  · exact secondFits

/-- A mantissa within the greatest finite number is rounded to what fits. -/
theorem fits_round
    {mantissa : Nat}
    {exponent : Int}
    (sign : Sign)
    (fits : exponent ≤ 971)
    (bounded : mantissa ≤ greatest exponent) :
    Fits (UnpackedFloat.round .binary64 sign mantissa exponent) := by
  unfold UnpackedFloat.round UnpackedFloat.decreaseExponent
  apply fits_roundWithAccuracy sign (by omega)
  rw [greatest_sub fits, Nat.shiftLeft_eq]
  exact Nat.mul_le_mul_right _ bounded

/-- A signed mantissa within the greatest finite number is rounded to what fits. -/
theorem fits_normalize
    {mantissa exponent : Int}
    (zeroSign : Sign)
    (fits : exponent ≤ 971)
    (bounded : mantissa.natAbs ≤ greatest exponent) :
    Fits (UnpackedFloat.normalize .binary64 mantissa exponent zeroSign) := by
  rw [UnpackedFloat.normalize]
  split
  · exact fits_round .negative fits (by omega)
  · trivial
  · exact fits_round .positive fits (by omega)

/-! ## Differences of numbers that are not negative -/

/-- An unpacked number is at most the greatest one. -/
theorem unpack_bounds
    {bits : BitVec Format.binary64.numBits}
    {sign : Sign}
    {mantissa : Nat}
    {exponent : Int}
    {positive : 0 < mantissa}
    (unpacked : UnpackedFloat.unpack .binary64 bits = .finite sign mantissa exponent positive) :
    mantissa ≤ 2 ^ 53 - 1 ∧ exponent ≤ 971 := by
  have bias : (Format.exponentBias .binary64 : Int) = 1023 := rfl
  have fraction : (UnpackedFloat.unpackMantissa bits).toNat < 2 ^ 52 := BitVec.isLt _
  have whole : (1#1 ++ UnpackedFloat.unpackMantissa bits).toNat < 2 ^ 53 := BitVec.isLt _
  have biased : (UnpackedFloat.unpackExponent bits).toNat < 2 ^ 11 := BitVec.isLt _
  simp only [UnpackedFloat.unpack, bias] at unpacked
  split at unpacked
  next => split at unpacked <;> exact absurd unpacked (by simp)
  next ordinary =>
    have notAll : (UnpackedFloat.unpackExponent bits).toNat ≠ 2047 :=
      fun all => ordinary (BitVec.eq_of_toNat_eq all)
    split at unpacked
    next subnormal =>
      split at unpacked
      next => exact absurd unpacked (by simp)
      next =>
        have least : (UnpackedFloat.unpackExponent bits).toNat = 0 :=
          congrArg BitVec.toNat subnormal
        simp only [UnpackedFloat.finite.injEq] at unpacked
        omega
    next normal =>
      simp only [UnpackedFloat.finite.injEq] at unpacked
      omega

/-- The difference of two positive finite numbers fits, because neither exceeds the greatest
one. -/
theorem fits_sub
    {mantissa otherMantissa : Nat}
    {exponent otherExponent : Int}
    {positive : 0 < mantissa}
    {otherPositive : 0 < otherMantissa}
    (bounds : mantissa ≤ 2 ^ 53 - 1 ∧ exponent ≤ 971)
    (otherBounds : otherMantissa ≤ 2 ^ 53 - 1 ∧ otherExponent ≤ 971) :
    Fits (UnpackedFloat.sub .binary64 (.finite .positive mantissa exponent positive)
      (.finite .positive otherMantissa otherExponent otherPositive)) := by
  have scaled : ∀ {size : Nat} {power : Int}, size ≤ 2 ^ 53 - 1 ∧ power ≤ 971 →
      min exponent otherExponent ≤ power →
        (UnpackedFloat.decreaseExponent size power (min exponent otherExponent)).1 ≤
          greatest (min exponent otherExponent) := by
    intro size power sizeBounds least
    rw [UnpackedFloat.decreaseExponent, Nat.shiftLeft_eq, greatest]
    exact Nat.mul_le_mul sizeBounds.1 (Nat.pow_le_pow_right (by decide) (by omega))
  have between : ∀ low high bound : Nat, low ≤ bound → high ≤ bound →
      ((low : Int) - high).natAbs ≤ bound := by omega
  exact fits_normalize .positive (by omega)
    (between _ _ _ (scaled bounds (min_le_left _ _)) (scaled otherBounds (min_le_right _ _)))

/-- What is finite and not negative is a zero or a positive number. -/
theorem eq_zero_or_positive
    {value : Float}
    (finite : value.isFinite = true)
    (nonneg : 0 ≤ value) :
    (∃ sign, value.toModel.unpack = .zero sign) ∨
      ∃ mantissa exponent, ∃ positive : 0 < mantissa,
        value.toModel.unpack = .finite .positive mantissa exponent positive ∧
          mantissa ≤ 2 ^ 53 - 1 ∧ exponent ≤ 971 := by
  have zero : degree (0 : Float).toModel.unpack = some (toLex (0, toLex (0, 0))) := by
    decide +kernel
  rw [le_iff, zero] at nonneg
  change value.toModel.unpack.isFinite = true at finite
  cases shape : value.toModel.unpack with
  | notANumber | infinity =>
      rw [shape] at finite
      exact absurd finite Bool.false_ne_true
  | zero sign => exact .inl ⟨sign, rfl⟩
  | finite sign mantissa exponent positive =>
      cases sign with
      | negative => simp [shape, degree, Prod.Lex.toLex_le_toLex] at nonneg
      | positive => exact .inr ⟨mantissa, exponent, positive, rfl, unpack_bounds shape⟩

/-- The difference of two finite numbers that are not negative is finite. -/
theorem isFinite_sub
    {first second : Float}
    (firstFinite : first.isFinite = true)
    (secondFinite : second.isFinite = true)
    (firstNonneg : 0 ≤ first)
    (secondNonneg : 0 ≤ second) :
    (first - second).isFinite = true := by
  apply Fits.isFinite_unpack_pack
  rcases eq_zero_or_positive firstFinite firstNonneg with
      ⟨sign, isFirst⟩ | ⟨mantissa, exponent, positive, isFirst, bounds⟩ <;>
    rcases eq_zero_or_positive secondFinite secondNonneg with
      ⟨otherSign, isSecond⟩ | ⟨otherMantissa, otherExponent, otherPositive, isSecond, otherBounds⟩ <;>
    rw [isFirst, isSecond]
  · rw [UnpackedFloat.sub]
    split <;> trivial
  · exact otherBounds.2
  · exact bounds.2
  · exact fits_sub bounds otherBounds

end Floating
end FlameProfile
