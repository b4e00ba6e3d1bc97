/-!
# Bounded numerals

A numeral is a row of decimal digits, which a plus sign may precede. It is read
from left to right against an exclusive limit. The first character that cannot
be taken decides the fault: one that is no digit, or one that carries the value
up to the limit.
-/

namespace FlameProfile
namespace Numeral

/-- Limit of the natural numbers that a number of bits can hold. -/
def wordLimit (bits : Nat) : Nat :=
  Nat.pow 2 bits

/-- Why a text is not a numeral below its limit. -/
inductive Fault
  | empty
  | invalidDigit
  | tooLarge
  deriving DecidableEq

/-- Wording of a fault. -/
def Fault.message : Fault -> String
  | .empty => "cannot parse integer from empty string"
  | .invalidDigit => "invalid digit found in string"
  | .tooLarge => "number too large to fit in target type"

/-- Decimal digits of a count. -/
def write (value : Nat) : List Char :=
  Nat.toDigits 10 value

/-- Read digits onto a value, as long as it stays below the limit. -/
def readDigits (limit : Nat) : Nat -> List Char -> Except Fault Nat
  | value, [] => .ok value
  | value, character :: rest =>
      if character.isDigit then
        if 10 * value + (character.toNat - '0'.toNat) < limit then
          readDigits limit (10 * value + (character.toNat - '0'.toNat)) rest
        else
          .error .tooLarge
      else
        .error .invalidDigit

/-- Read a numeral below a limit. -/
def read (limit : Nat) : List Char -> Except Fault Nat
  | [] => .error .empty
  | ['+'] => .error .invalidDigit
  | '+' :: digits => readDigits limit 0 digits
  | digits => readDigits limit 0 digits

/-- Reading digits onto a value appends them to its decimal digits. -/
theorem readDigits_of_lt
    {limit value : Nat}
    {digits : List Char}
    (areDigits : ∀ digit ∈ digits, digit.isDigit = true)
    (fits : Nat.ofDigitChars 10 digits value < limit) :
    readDigits limit value digits = .ok (Nat.ofDigitChars 10 digits value) := by
  induction digits generalizing value with
  | nil => rfl
  | cons digit rest induction =>
      have isDigit := areDigits digit (by simp)
      have grows : forall (start : Nat) (more : List Char),
          start ≤ Nat.ofDigitChars 10 more start := by
        intro start more
        induction more generalizing start with
        | nil => simp
        | cons next others step =>
            rw [Nat.ofDigitChars_cons]
            exact Nat.le_trans (by omega) (step _)
      rw [Nat.ofDigitChars_cons] at fits ⊢
      have small := Nat.lt_of_le_of_lt (grows _ rest) fits
      simp only [readDigits, isDigit, if_true, if_pos small]
      exact induction (fun other member => areDigits other (by simp [member])) fits

end Numeral
end FlameProfile
