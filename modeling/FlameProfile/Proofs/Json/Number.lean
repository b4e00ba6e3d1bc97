import Mathlib
import FlameProfile.Json.Writer
import FlameProfile.Proofs.Arithmetic.Comparison

/-!
# Numbers in documents

A finite number is written with digits, be they followed by a point or by an
exponent. A value that is not finite is written as null, so a reader does not
find a number in its place.
-/

namespace FlameProfile

namespace Decimal.Format

/-- A text that begins with a digit. -/
def BeginsWithDigit (text : List Char) : Prop :=
  ∃ first ∈ text.head?, first.isDigit = true

theorem beginsWithDigit_toDigits (number : Nat) :
    BeginsWithDigit (Nat.toDigits 10 number) := by
  obtain ⟨first, rest, digits⟩ := List.exists_cons_of_ne_nil (Nat.toDigits_ne_nil (n := number))
  refine ⟨first, by rw [digits]; rfl, ?_⟩
  exact Nat.isDigit_of_mem_toDigits (by decide) le_rfl (digits ▸ List.mem_cons_self)

variable {digits : List Char} (format : Format)

/-- However a decimal is laid out, it begins with a digit. -/
theorem beginsWithDigit_placePoint
    (begins : BeginsWithDigit digits)
    (before : Int) :
    BeginsWithDigit (format.placePoint digits before) := by
  obtain ⟨first, isFirst, isDigit⟩ := begins
  obtain ⟨rest, rfl⟩ := List.head?_eq_some_iff.mp isFirst
  rw [placePoint]
  split
  next => exact ⟨'0', rfl, by decide⟩
  next positive =>
    split
    next => exact ⟨first, rfl, isDigit⟩
    next =>
      obtain ⟨places, isPlaces⟩ : ∃ places, before.toNat = places + 1 :=
        Nat.exists_eq_succ_of_ne_zero (by omega)
      rw [isPlaces]
      exact ⟨first, rfl, isDigit⟩

theorem beginsWithDigit_placeExponent
    (begins : BeginsWithDigit digits)
    (exponent : Int) :
    BeginsWithDigit (format.placeExponent digits exponent) := by
  obtain ⟨first, isFirst, isDigit⟩ := begins
  obtain ⟨rest, rfl⟩ := List.head?_eq_some_iff.mp isFirst
  refine ⟨first, ?_, isDigit⟩
  cases rest <;> rfl

theorem beginsWithDigit_layOut (decimal : Decimal) :
    BeginsWithDigit (format.layOut decimal) := by
  have digits := beginsWithDigit_toDigits decimal.digits
  rw [layOut]
  split
  next => exact beginsWithDigit_placePoint format digits _
  next =>
    split
    next => exact beginsWithDigit_placePoint format digits _
    next => exact beginsWithDigit_placeExponent format digits _

end Decimal.Format

namespace Json

/-- The text of a value begins as that of a number does: with a digit, or with a
minus sign before a digit. -/
def WritesNumber (json : Json) : Prop :=
  ∃ digits, Decimal.Format.BeginsWithDigit digits ∧
    (json.writeAt 0 = digits ∨ json.writeAt 0 = '-' :: digits)

theorem writesNumber_of_isFinite
    {value : Float}
    (finite : value.isFinite = true) :
    (number value).WritesNumber := by
  have isNumber : ¬ value.isNaN = true := by
    rw [Floating.isNaN_of_isFinite finite]
    exact Bool.false_ne_true
  rw [WritesNumber, writeAt, Decimal.Format.write, if_neg isNumber, if_pos finite]
  simp only [String.toList_append, String.toList_ofList]
  cases Binary.isNegative value with
  | true => exact ⟨_, numberFormat.beginsWithDigit_layOut _, .inr rfl⟩
  | false => exact ⟨_, numberFormat.beginsWithDigit_layOut _, .inl rfl⟩

/-- A value that is not finite is written as null. -/
theorem not_writesNumber_of_not_isFinite
    {value : Float}
    (infinite : ¬ value.isFinite = true) :
    ¬ (number value).WritesNumber := by
  have isNull : (number value).writeAt 0 = ['n', 'u', 'l', 'l'] := by
    rw [writeAt, Decimal.Format.write, if_neg infinite]
    split_ifs <;> rfl
  rintro ⟨digits, ⟨first, isFirst, isDigit⟩, same | same⟩
  · rw [← same, isNull] at isFirst
    rw [← Option.some.inj isFirst] at isDigit
    exact absurd isDigit (by decide)
  · rw [isNull] at same
    exact absurd (List.cons.inj same).1 (by decide)

/-- A value is written as a number exactly if it is finite. -/
theorem writesNumber_iff (value : Float) :
    (number value).WritesNumber ↔ value.isFinite = true :=
  ⟨Function.mtr not_writesNumber_of_not_isFinite, writesNumber_of_isFinite⟩

end Json
end FlameProfile
