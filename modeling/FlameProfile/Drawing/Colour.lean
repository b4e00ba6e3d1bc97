import FlameProfile.Arithmetic

/-!
# Colours of frames

In the picture of one profile a frame is red when an exception passed it and
green otherwise. In a differential picture a frame that got heavier is red and
one that got lighter is green, the paler the smaller the change is beside the
greatest one. A change within a hundredth of the baseline leaves a frame grey.
-/

namespace FlameProfile

/-- A colour by its red, green and blue parts, each below 256. -/
structure Colour where
  red : Nat
  green : Nat
  blue : Nat
  deriving DecidableEq

namespace Colour

/-- Text of a colour in a picture. -/
def write (colour : Colour) : String :=
  s!"rgb({colour.red}, {colour.green}, {colour.blue})"

/-- Colour of a frame that an exception passed, or of one without. -/
def ofFailure (failed : Bool) : Colour :=
  if failed then ⟨220, 20, 60⟩ else ⟨34, 139, 34⟩

/-- Colour of a frame that did not change. -/
def unchanged : Colour :=
  ⟨240, 240, 240⟩

variable {Number : Type} [Arithmetic Number]

/-- Change as a part of the baseline. A frame that was not there before has
changed altogether if it got heavier, and not at all otherwise. -/
def relativeChange
    (delta weight : Number) : Number :=
  if 0 < weight - delta then delta / (weight - delta)
  else if 0 < delta then Arithmetic.ofCount 1
  else 0

/-- Strength of a colour for a change beside the greatest change. -/
def intensity
    (delta greatest : Number) : Nat :=
  min 255 (Arithmetic.wholePart
    (Arithmetic.smaller (Arithmetic.magnitude delta / greatest) (Arithmetic.ofCount 1) *
      Arithmetic.ofCount 155))

/-- Colour of a frame that weighs what it does after a change. -/
def ofChange
    (delta weight greatest : Number) : Colour :=
  if Arithmetic.magnitude (relativeChange delta weight) ≤ (0.01 : Number) ∨ greatest ≤ 0 then
    unchanged
  else
    let pale := 200 - intensity delta greatest
    if 0 < delta then ⟨255, pale, pale⟩ else ⟨pale, 255, pale⟩

end Colour
end FlameProfile
