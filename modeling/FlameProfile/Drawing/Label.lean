import FlameProfile.Drawing.Layout

/-!
# Labels of frames

A label is shown as far as it fits into its frame. A label that is cut ends in
two points; a frame too narrow for three letters shows none.
-/

namespace FlameProfile
namespace Label

variable {Number : Type} [Arithmetic Number]

/-- Number of letters that fit into a width in pixels. -/
def capacity (width : Number) : Nat :=
  Arithmetic.wholePart (width / ((Arithmetic.ofCount Canvas.fontSize : Number) * 0.59))

/-- The part of a label that is shown in a width, if any. -/
def fit
    (label : String)
    (width : Number) : Option String :=
  if capacity width < 3 ∨ label = "" then
    none
  else if capacity width < label.length then
    some (String.ofList (label.toList.take (capacity width - 2)) ++ "..")
  else
    some label

end Label
end FlameProfile
