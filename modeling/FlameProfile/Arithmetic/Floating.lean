import FlameProfile.Arithmetic
import FlameProfile.Decimal.Binary

/-!
# Floating-point arithmetic

The program measures in binary floating point of sixty-four bits. Ranking puts
the values in the order of their bits, negative numbers reversed, so that the
two zeros are told apart and values that are no number come last.
-/

namespace FlameProfile
namespace Floating

/-- Place of a number in the total order of all values. -/
def place (number : Float) : Int :=
  let bits := number.toBits.toNat
  if bits < Binary.signWeight then bits else (Binary.signWeight : Int) - 1 - bits

end Floating

instance : Arithmetic Float where
  zero := 0.0
  ltDecidable := Float.decLt
  leDecidable := Float.decLe
  ofCount := Float.ofNat
  isFinite := Float.isFinite
  wholePart number := number.toUInt64.toNat
  ceiling number :=
    if number.isFinite && !Binary.isNegative number then
      (Binary.ofFloat number).ceiling
    else
      0
  rank first second := compare (Floating.place first) (Floating.place second)
  identical first second := first.toBits = second.toBits

end FlameProfile
