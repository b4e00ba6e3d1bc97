/-!
# Exact value of a floating-point number

The bits of a finite number stand for a natural significand times a power of
two. All texts of numbers are chosen by comparing such exact values, never by
floating-point operations.
-/

namespace FlameProfile

/-- The exact size `significand * 2 ^ exponent` of a finite number. -/
structure Binary where
  significand : Nat
  exponent : Int
  /-- The gap to the number below is half the gap to the number above. -/
  narrowBelow : Bool
  deriving DecidableEq

namespace Binary

/-- Decode the bits of a finite number, without its sign. -/
def ofBits (bits : UInt64) : Binary :=
  let biased : Nat := (bits.toNat / Nat.pow 2 52) % Nat.pow 2 11
  let fraction : Nat := bits.toNat % Nat.pow 2 52
  if biased = 0 then
    ⟨fraction, -1074, false⟩
  else
    ⟨Nat.pow 2 52 + fraction, (biased : Int) - 1075, fraction = 0 && 1 < biased⟩

/-- The exact size of a finite number. -/
def ofFloat (number : Float) : Binary :=
  ofBits number.toBits

/-- Weight of the bit of the sign. -/
def signWeight : Nat := Nat.pow 2 63

/-- Whether the sign bit is set. -/
def isNegative (number : Float) : Bool :=
  signWeight ≤ number.toBits.toNat

/-- Numerator of the value as a quotient of naturals. -/
def numerator (value : Binary) : Nat :=
  value.significand * Nat.pow 2 value.exponent.toNat

/-- Denominator of the value as a quotient of naturals, a power of two. -/
def denominator (value : Binary) : Nat :=
  Nat.pow 2 (-value.exponent).toNat

/-- The whole part of the value. -/
def floor (value : Binary) : Nat :=
  value.numerator / value.denominator

/-- The least natural that is not below the value. -/
def ceiling (value : Binary) : Nat :=
  (value.numerator + value.denominator - 1) / value.denominator

end Binary
end FlameProfile
