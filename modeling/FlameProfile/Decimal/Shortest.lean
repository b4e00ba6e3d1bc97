import FlameProfile.Decimal.Binary

/-!
# Shortest decimals

The shortest decimal of a floating-point number is the one with the fewest
digits among those that read back as the same number; of several with equally
few digits it is the one nearest to the exact value. The reals that read back
as a number reach halfway to its neighbours on both sides, ends included when
the significand is even.

Decimals with a given number of digits form a grid. If any point of a grid
reads back, one of the two neighbours of the exact value on that grid does, so
the grids are tried from the coarsest on with these two points.
-/

namespace FlameProfile

/-- The number `digits * 10 ^ exponent`. -/
structure Decimal where
  digits : Nat
  exponent : Int
  deriving DecidableEq

namespace Decimal

/-- Which of two equally near decimals is taken. -/
inductive Tie
  | toEven
  | upward
  deriving DecidableEq

/-- Compare `first * 10 ^ tens` with `second * 2 ^ twos`, exactly. -/
def compareScaled
    (first : Nat)
    (tens : Int)
    (second : Nat)
    (twos : Int) : Ordering :=
  compare
    (first * Nat.pow 10 tens.toNat * Nat.pow 2 (-twos).toNat)
    (second * Nat.pow 2 twos.toNat * Nat.pow 10 (-tens).toNat)

/-- Whether a decimal lies among the reals that round to a number. -/
def readsBack
    (value : Binary)
    (decimal : Decimal) : Bool :=
  let lowest :=
    if value.narrowBelow then 4 * value.significand - 1 else 4 * value.significand - 2
  let highest := 4 * value.significand + 2
  let endsIncluded := value.significand % 2 = 0
  let fromBelow :=
    compareScaled decimal.digits decimal.exponent lowest (value.exponent - 2)
  let fromAbove :=
    compareScaled decimal.digits decimal.exponent highest (value.exponent - 2)
  (fromBelow = .gt || (endsIncluded && fromBelow = .eq)) &&
    (fromAbove = .lt || (endsIncluded && fromAbove = .eq))

/-- Number of decimal digits of a natural number. -/
def digitCount (number : Nat) : Nat :=
  (Nat.toDigits 10 number).length

/-- The least `scale` with the value of a positive number below `10 ^ scale`. -/
def scale (value : Binary) : Int :=
  if value.denominator ≤ value.numerator then
    digitCount value.floor
  else
    1 - (digitCount ((value.denominator - 1) / value.numerator) : Int)

/-- The decimals on the grid of `10 ^ exponent` that read back, the nearer of
two. -/
def onGrid
    (tie : Tie)
    (value : Binary)
    (exponent : Int) : Option Decimal :=
  let below :=
    value.numerator * Nat.pow 10 (-exponent).toNat /
      (value.denominator * Nat.pow 10 exponent.toNat)
  let low : Decimal := ⟨below, exponent⟩
  let high : Decimal := ⟨below + 1, exponent⟩
  match readsBack value low, readsBack value high with
  | false, false => none
  | true, false => some low
  | false, true => some high
  | true, true =>
      match compareScaled (2 * below + 1) exponent value.significand (value.exponent + 1), tie with
      | .gt, _ => some low
      | .lt, _ => some high
      | .eq, .upward => some high
      | .eq, .toEven => some (if below % 2 = 0 then low else high)

/-- The exact value as a decimal. -/
def exact (value : Binary) : Decimal :=
  if value.exponent < 0 then
    ⟨value.significand * Nat.pow 5 (-value.exponent).toNat, value.exponent⟩
  else
    ⟨value.numerator, 0⟩

/-- Move the trailing zeros of the digits into the exponent. -/
def dropZeros (digits : Nat) (exponent : Int) : Decimal :=
  if trailing : digits ≠ 0 ∧ digits % 10 = 0 then
    dropZeros (digits / 10) (exponent + 1)
  else
    ⟨digits, exponent⟩
termination_by digits
decreasing_by omega

/-- The shortest decimal of a positive number. Seventeen digits always read
back, so the exact value behind them is only a bound for the search. -/
def shortest
    (tie : Tie)
    (value : Binary) : Decimal :=
  let found := (List.range 17).findSome? fun more =>
    onGrid tie value (scale value - (more + 1 : Nat))
  let chosen := found.getD (exact value)
  dropZeros chosen.digits chosen.exponent

end Decimal
end FlameProfile
