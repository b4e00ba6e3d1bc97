import Mathlib
import FlameProfile.Drawing.Colour
import FlameProfile.NumberText
import FlameProfile.Proofs.Drawing.Markup
import FlameProfile.Proofs.Text.Characters

/-!
# Texts that need no escaping

The numbers and colours of a picture are written into it as they are. However large,
small or undefined a number is, its text consists of printable characters that markup is
not made of.
-/

namespace FlameProfile

namespace Markup

open Text

/-- A printable character that markup is not made of. -/
def IsOrdinary (character : Char) : Prop :=
  ' ' ≤ character ∧ character ≤ '~' ∧ character ∉ ['&', '<', '>', '"']

instance (character : Char) : Decidable (IsOrdinary character) :=
  inferInstanceAs (Decidable (_ ∧ _))

/-- A text of such characters has no tags. -/
theorem hasTags_of_isOrdinary
    {text : String}
    (ordinary : ConsistsOf IsOrdinary text) :
    HasTags text [] := by
  refine hasTags_of_not_mem fun begins => ?_
  exact absurd (ordinary _ begins) (by decide)

theorem isOrdinary_of_isDigit
    {character : Char}
    (isDigit : character.isDigit = true) :
    IsOrdinary character := by
  rw [Char.isDigit, Bool.and_eq_true, decide_eq_true_eq, decide_eq_true_eq] at isDigit
  refine ⟨?_, ?_, fun special => ?_⟩
  · exact le_trans (by decide) isDigit.1
  · exact le_trans isDigit.2 (by decide)
  · simp only [List.mem_cons, List.not_mem_nil, or_false] at special
    rcases special with rfl | rfl | rfl | rfl <;> exact absurd isDigit (by decide)

theorem isOrdinary_of_mem_toDigits
    {number : Nat} :
    ∀ digit ∈ Nat.toDigits 10 number, IsOrdinary digit :=
  fun _ member => isOrdinary_of_isDigit (Nat.isDigit_of_mem_toDigits (by decide) le_rfl member)

end Markup

namespace Decimal

open Markup Text

theorem isOrdinary_writeUnits (places units : Nat) :
    ∀ character ∈ writeUnits places units, IsOrdinary character := by
  have zero : IsOrdinary '0' := by decide
  have point : IsOrdinary '.' := by decide
  have padded : ∀ character ∈ List.replicate (places + 1 - (Nat.toDigits 10 units).length) '0' ++
      Nat.toDigits 10 units, IsOrdinary character := by
    refine List.forall_mem_append.mpr ⟨fun character member => ?_, isOrdinary_of_mem_toDigits⟩
    exact List.eq_of_mem_replicate member ▸ zero
  unfold writeUnits
  split
  · exact padded
  · refine List.forall_mem_append.mpr ⟨fun character member => ?_, ?_⟩
    · exact padded character (List.mem_of_mem_take member)
    · refine List.forall_mem_cons.mpr ⟨point, fun character member => ?_⟩
      exact padded character (List.mem_of_mem_drop member)

/-- The text of a number with a fixed number of places needs no escaping. -/
theorem isOrdinary_fixed
    (places : Nat)
    (number : Float) :
    ConsistsOf IsOrdinary (fixed places number) := by
  have sign : ConsistsOf IsOrdinary (if Binary.isNegative number then "-" else "") := by
    split <;> decide
  unfold fixed
  split
  · decide
  · simp only
    split
    · exact consistsOf_append.mpr ⟨sign, consistsOf_ofList.mpr (isOrdinary_writeUnits _ _)⟩
    · exact consistsOf_append.mpr ⟨sign, by decide⟩

namespace Format

theorem isOrdinary_placePoint
    (format : Format)
    {digits : List Char}
    (ordinary : ∀ digit ∈ digits, IsOrdinary digit)
    (before : Int) :
    ∀ character ∈ format.placePoint digits before, IsOrdinary character := by
  have zero : IsOrdinary '0' := by decide
  have point : IsOrdinary '.' := by decide
  have zeros : ∀ count, ∀ character ∈ List.replicate count '0', IsOrdinary character :=
    fun count character member => List.eq_of_mem_replicate member ▸ zero
  unfold placePoint
  split
  · simp only [List.forall_mem_cons, List.forall_mem_append]
    exact ⟨zero, point, zeros _, ordinary⟩
  split
  · simp only [List.forall_mem_append]
    refine ⟨⟨ordinary, zeros _⟩, ?_⟩
    split
    next => exact List.forall_mem_cons.mpr ⟨point, List.forall_mem_singleton.mpr zero⟩
    next => exact List.forall_mem_nil _
  · simp only [List.forall_mem_cons, List.forall_mem_append]
    exact ⟨fun character member => ordinary character (List.mem_of_mem_take member), point,
      fun character member => ordinary character (List.mem_of_mem_drop member)⟩

/-- The shortest positional text of a number needs no escaping. -/
theorem isOrdinary_write_plain (number : Float) : ConsistsOf IsOrdinary (plain.write number) := by
  have sign : ConsistsOf IsOrdinary (if Binary.isNegative number then "-" else "") := by
    split <;> decide
  unfold write
  split
  · decide
  split
  · refine consistsOf_append.mpr ⟨sign, consistsOf_ofList.mpr ?_⟩
    exact isOrdinary_placePoint plain isOrdinary_of_mem_toDigits _
  split <;> decide

end Format
end Decimal

open Markup Text

theorem NumberText.isOrdinary_signed
    (places : Nat)
    (number : Float) :
    ConsistsOf IsOrdinary (signed places number) := by
  have fixed : ConsistsOf IsOrdinary (NumberText.fixed places number) :=
    Decimal.isOrdinary_fixed places number
  unfold signed
  simp only
  split
  · exact fixed
  · exact consistsOf_append.mpr ⟨by decide, fixed⟩

theorem Colour.isOrdinary_write (colour : Colour) : ConsistsOf IsOrdinary colour.write := by
  have part : ∀ amount : Nat, ConsistsOf IsOrdinary (toString amount) := by
    intro amount character member
    rw [Nat.toString_eq_repr, Nat.toList_repr] at member
    exact isOrdinary_of_mem_toDigits character member
  simp only [write, consistsOf_append, part, and_true]
  decide

end FlameProfile
