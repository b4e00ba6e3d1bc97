import Mathlib

/-!
# Texts of some kind of characters

A text consists of characters of a kind if all its characters are of that kind. A text that
is put together consists of them if its parts do.
-/

namespace FlameProfile
namespace Text

variable {kind : Char -> Prop}

/-- All characters of a text are of a kind. -/
def ConsistsOf
    (kind : Char -> Prop)
    (text : String) : Prop :=
  ∀ character ∈ text.toList, kind character

instance [DecidablePred kind] (text : String) : Decidable (ConsistsOf kind text) :=
  List.decidableBAll kind text.toList

theorem ConsistsOf.mono
    {other : Char -> Prop}
    {text : String}
    (consists : ConsistsOf kind text)
    (weaker : ∀ character, kind character → other character) :
    ConsistsOf other text :=
  fun character member => weaker character (consists character member)

theorem consistsOf_ofList
    {characters : List Char} :
    ConsistsOf kind (String.ofList characters) ↔ ∀ character ∈ characters, kind character := by
  rw [ConsistsOf, String.toList_ofList]

theorem consistsOf_append
    {first second : String} :
    ConsistsOf kind (first ++ second) ↔ ConsistsOf kind first ∧ ConsistsOf kind second := by
  rw [ConsistsOf, String.toList_append, List.forall_mem_append]
  rfl

end Text
end FlameProfile
