import FlameProfile.Decimal.Shortest

/-!
# Reading numbers

A number is an optional sign before a name of infinity, the name of the value
that is no number, or digits. The digits may hold one point and be followed by
an exponent; at least one digit stands before or behind the point and at least
one in the exponent. The value read is the floating-point number nearest to the
decimal.
-/

namespace FlameProfile
namespace Decimal

/-- Why a text is not a number. -/
inductive Fault
  | empty
  | invalid
  deriving DecidableEq

/-- Wording of a fault. -/
def Fault.message : Fault -> String
  | .empty => "cannot parse float from empty string"
  | .invalid => "invalid float literal"

/-- The floating-point number nearest to a decimal. Decimals far outside the
range of the format are told by the place of their leading digit. -/
def toFloat (decimal : Decimal) : Float :=
  let leading := digitCount decimal.digits + decimal.exponent
  if decimal.digits = 0 ∨ leading < -400 then
    0.0
  else if 400 < leading then
    1.0 / 0.0
  else
    Float.ofScientific decimal.digits (decimal.exponent < 0) decimal.exponent.natAbs

/-- Read the exponent of a number, if there is one. -/
def readExponent : List Char -> Option Int
  | [] => some 0
  | mark :: rest =>
      if mark = 'e' ∨ mark = 'E' then
        let negative := rest.head? = some '-'
        let digits := if negative || rest.head? = some '+' then rest.tail else rest
        if digits ≠ [] && digits.all Char.isDigit then
          let size : Int := Nat.ofDigitChars 10 digits 0
          some (if negative then -size else size)
        else
          none
      else
        none

/-- Read an unsigned decimal. -/
def readUnsigned (text : List Char) : Option Decimal :=
  let whole := text.takeWhile Char.isDigit
  let behind := text.dropWhile Char.isDigit
  let pointed := behind.head? = some '.'
  let places := if pointed then behind.tail.takeWhile Char.isDigit else []
  let rest := if pointed then behind.tail.dropWhile Char.isDigit else behind
  if whole = [] ∧ places = [] then
    none
  else
    (readExponent rest).map fun exponent =>
      ⟨Nat.ofDigitChars 10 (whole ++ places) 0, exponent - places.length⟩

/-- Read an unsigned number. -/
def readMagnitude (text : List Char) : Option Float :=
  match String.ofList (text.map Char.toLower) with
  | "inf" => some (1.0 / 0.0)
  | "infinity" => some (1.0 / 0.0)
  | "nan" => some (0.0 / 0.0)
  | _ => (readUnsigned text).map toFloat

/-- Read a number. -/
def read (text : List Char) : Except Fault Float :=
  match text with
  | [] => .error .empty
  | '-' :: rest =>
      match readMagnitude rest with
      | some size => .ok (-size)
      | none => .error .invalid
  | '+' :: rest =>
      match readMagnitude rest with
      | some size => .ok size
      | none => .error .invalid
  | _ =>
      match readMagnitude text with
      | some size => .ok size
      | none => .error .invalid

end Decimal
end FlameProfile
