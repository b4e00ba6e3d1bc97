import FlameProfile.Decimal.Numeral
import FlameProfile.Decimal.Reader
import FlameProfile.Toml.Text
import FlameProfile.Toml.Value

/-!
# Numbers, truth values and moments in settings

A single underscore may stand between two digits of a number. Whole numbers are
decimal, or hexadecimal, octal or binary behind a mark; they fit into
sixty-four bits with a sign. A number with a point or an exponent is a
floating-point number, which may not be too great. A moment is a date, a time
of day, or a date with a time of day that may name its distance from universal
time; days have to exist in the calendar.
-/

namespace FlameProfile
namespace Toml

/-! ## Numbers -/

/-- Digits without the underscores between them. -/
def ungroup (isDigit : Char -> Bool) : List Char -> Option (List Char)
  | [] => none
  | [digit] => if isDigit digit then some [digit] else none
  | digit :: '_' :: rest =>
      if isDigit digit then (ungroup isDigit rest).map (digit :: ·) else none
  | digit :: rest =>
      if isDigit digit then (ungroup isDigit rest).map (digit :: ·) else none

/-- Digits of the part before the point, which has no leading zero. -/
def wholeDigits? (text : List Char) : Option (List Char) :=
  (ungroup Char.isDigit text).filter fun digits =>
    digits.head? ≠ some '0' || digits.length = 1

/-- Split a sign from the beginning of a text. -/
def splitSign : List Char -> Bool × List Char
  | '-' :: rest => (true, rest)
  | '+' :: rest => (false, rest)
  | unsigned => (false, unsigned)

/-- Read a decimal whole number. -/
def integer? (word : List Char) : Option Int := do
  let (negative, rest) := splitSign word
  let digits ← wholeDigits? rest
  let size := Nat.ofDigitChars 10 digits 0
  if negative then
    if size ≤ Numeral.wordLimit 63 then some (-size) else none
  else
    if size < Numeral.wordLimit 63 then some size else none

/-- Read a whole number behind the mark of its base. -/
def marked? : List Char -> Option Int
  | '0' :: mark :: rest => do
      let base ← [('x', 16), ('o', 8), ('b', 2)].lookup mark
      let isDigit := fun character => ((hexValue? character).getD base) < base
      let digits ← ungroup isDigit rest
      let value :=
        digits.foldl (fun value digit => base * value + (hexValue? digit).getD 0) 0
      if value < Numeral.wordLimit 63 then some value else none
  | _ => none

/-- Whether a text is an exponent, its mark included. -/
def isExponent : List Char -> Bool
  | mark :: rest =>
      (mark = 'e' || mark = 'E') && (ungroup Char.isDigit (splitSign rest).2).isSome
  | [] => false

/-- Whether a character marks an exponent. -/
def isExponentMark (character : Char) : Bool :=
  character = 'e' || character = 'E'

/-- Whether what follows the whole part makes a floating-point number. -/
def isFraction : List Char -> Bool
  | '.' :: rest =>
      let exponent := rest.dropWhile fun character => !isExponentMark character
      (ungroup Char.isDigit (rest.takeWhile fun character => !isExponentMark character)).isSome &&
        (exponent = [] || isExponent exponent)
  | exponent => isExponent exponent

/-- Read a floating-point number that is written in digits. -/
def decimal? (word : List Char) : Option Float :=
  let inWhole := fun character : Char => character.isDigit || character = '_'
  let unsigned := (splitSign word).2
  if (wholeDigits? (unsigned.takeWhile inWhole)).isSome ∧
      isFraction (unsigned.dropWhile inWhole) = true then
    match Decimal.read (word.filter fun character => character ≠ '_') with
    | .ok value => if value == 1.0 / 0.0 then none else some value
    | .error _ => none
  else
    none

/-- Read the name of a value that is no finite number. -/
def nonfinite? (word : List Char) : Option Float :=
  match splitSign word with
  | (negative, ['i', 'n', 'f']) => some (if negative then -1.0 / 0.0 else 1.0 / 0.0)
  | (_, ['n', 'a', 'n']) => some (0.0 / 0.0)
  | _ => none

/-! ## Moments -/

/-- Value of digits that have to stand alone. -/
def digitsValue? (digits : List Char) : Option Nat :=
  if digits.all Char.isDigit then some (Nat.ofDigitChars 10 digits 0) else none

/-- Whether digits alone make a number of at most a bound. -/
def isAtMost
    (bound : Nat)
    (digits : List Char) : Bool :=
  (digitsValue? digits).any fun value => value ≤ bound

/-- Whether a year has a day more. -/
def isLeapYear (year : Nat) : Bool :=
  year % 4 = 0 && (year % 100 ≠ 0 || year % 400 = 0)

/-- Number of days of a month, zero for one that does not exist. -/
def daysIn
    (year month : Nat) : Nat :=
  if month = 2 then
    if isLeapYear year then 29 else 28
  else if month ∈ [4, 6, 9, 11] then
    30
  else if 1 ≤ month ∧ month ≤ 12 then
    31
  else
    0

/-- Whether a text is a day of the calendar. -/
def isDate : List Char -> Bool
  | [y1, y2, y3, y4, '-', m1, m2, '-', d1, d2] =>
      match digitsValue? [y1, y2, y3, y4], digitsValue? [m1, m2], digitsValue? [d1, d2] with
      | some year, some month, some day => 1 ≤ day && day ≤ daysIn year month
      | _, _, _ => false
  | _ => false

/-- Whether a text is a distance from universal time, or none. -/
def isOffset : List Char -> Bool
  | [] => true
  | ['Z'] => true
  | ['z'] => true
  | [sign, h1, h2, ':', m1, m2] =>
      (sign = '+' || sign = '-') && isAtMost 23 [h1, h2] && isAtMost 59 [m1, m2]
  | _ => false

/-- What follows a time of day at the beginning of a text. -/
def behindTime? : List Char -> Option (List Char)
  | h1 :: h2 :: ':' :: m1 :: m2 :: ':' :: s1 :: s2 :: rest =>
      if isAtMost 23 [h1, h2] && isAtMost 59 [m1, m2] && isAtMost 60 [s1, s2] then
        match rest with
        | '.' :: digit :: digits =>
            if digit.isDigit then some (digits.dropWhile Char.isDigit) else none
        | rest => some rest
      else
        none
  | _ => none

/-- Whether a text is a time of day with or without an offset. -/
def isTimeWithOffset (word : List Char) : Bool :=
  (behindTime? word).any isOffset

/-- Whether a text is a moment that has no blank in it. -/
def isMoment (word : List Char) : Bool :=
  behindTime? word = some [] || isDate word ||
    isDate (word.take 10) &&
      match word.drop 10 with
      | mark :: rest => (mark = 'T' || mark = 't') && isTimeWithOffset rest
      | [] => false

/-! ## Words -/

/-- Whether a character may stand in a word that is no text. -/
def isWordChar (character : Char) : Bool :=
  character.isAlphanum || character ∈ ['_', '+', '-', '.', ':']

/-- The value that a word stands for. -/
def ofWord? (word : List Char) : Option Toml :=
  match word with
  | ['t', 'r', 'u', 'e'] => some (.truth true)
  | ['f', 'a', 'l', 's', 'e'] => some (.truth false)
  | _ =>
      if isMoment word then
        some (.moment (String.ofList word))
      else
        ((decimal? word <|> nonfinite? word).map Toml.number) <|>
          ((marked? word <|> integer? word).map Toml.integer)

/-- Read a value that is a word. A blank may stand between a date and a time. -/
def readWord (text : List Char) : Option (Toml × List Char) :=
  let word := text.takeWhile isWordChar
  let rest := text.dropWhile isWordChar
  let time :=
    match rest with
    | ' ' :: behind => behind.takeWhile isWordChar
    | _ => []
  if isDate word ∧ time ≠ [] then
    if isTimeWithOffset time then
      some (.moment (String.ofList (word ++ ' ' :: time)), rest.drop (time.length + 1))
    else
      none
  else
    (ofWord? word).map fun value => (value, rest)

end Toml
end FlameProfile
