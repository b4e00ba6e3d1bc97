import Mathlib
import FlameProfile.Json.Scanner
import FlameProfile.Json.Writer
import FlameProfile.Proofs.Json.Number

/-!
# Scanning what was written

A written text is scanned as that text, whatever its characters, and a written whole number
as that number. What is scanned as a number up to its end is scanned alike in front of
anything that does not continue a number.
-/

namespace FlameProfile
namespace Json

/-! ## Texts -/

/-- Every hexadecimal digit that is written is read back. -/
theorem hexDigit?_digitChar :
    ∀ digit < 16, hexDigit? (Nat.digitChar digit) = some digit := by
  decide

/-- An escaped character is one piece of a text. -/
theorem scanPiece_escapeChar
    (character : Char)
    (rest : Symbols) :
    scanPiece ((escapeChar character).map some ++ rest) = .found (.char character) rest := by
  unfold escapeChar
  split
  case h_8 notQuote notBackslash _ _ _ _ _ =>
    split
    next control =>
      have high := hexDigit?_digitChar (character.toNat / 16) (by omega)
      have low := hexDigit?_digitChar (character.toNat % 16) (Nat.mod_lt _ (by decide))
      have number : 16 * (character.toNat / 16) + character.toNat % 16 = character.toNat :=
        Nat.div_add_mod _ _
      have notLeading : isLeading character.toNat = false := by simp [isLeading]; omega
      have notTrailing : isTrailing character.toNat = false := by simp [isTrailing]; omega
      have zero : hexDigit? '0' = some 0 := by decide
      simp [scanPiece, scanEscape, scanHex, high, low, zero, number, notLeading, notTrailing,
        Char.ofNat_toNat]
    next printable =>
      simp [scanPiece, printable]
  all_goals simp [scanPiece, scanEscape, unescape?]

/-- Where a text closes, what was gathered of it is found. -/
theorem scanText_of_close
    {symbols rest : Symbols}
    (closes : scanPiece symbols = .found .close rest)
    (faults : TextFaults)
    (reversed : List Char) :
    scanText faults reversed symbols = .found (closeText faults reversed) rest := by
  rw [scanText]
  split <;> simp_all

/-- A character of a text is gathered, and scanning goes on behind it. -/
theorem scanText_of_char
    {symbols rest : Symbols}
    {character : Char}
    (piece : scanPiece symbols = .found (.char character) rest)
    (faults : TextFaults)
    (reversed : List Char) :
    scanText faults reversed symbols = scanText faults (character :: reversed) rest := by
  rw [scanText]
  split <;> simp_all

/-- The escaped characters of a text are scanned up to its closing quote. -/
theorem scanText_escaped
    (faults : TextFaults)
    (reversed text : List Char)
    (rest : Symbols) :
    scanText faults reversed ((text.flatMap escapeChar).map some ++ some '"' :: rest) =
      .found (closeText faults (text.reverse ++ reversed)) rest := by
  induction text generalizing reversed with
  | nil => exact scanText_of_close rfl faults reversed
  | cons character text inductionHypothesis =>
      rw [List.flatMap_cons, List.map_append, List.append_assoc,
        scanText_of_char (scanPiece_escapeChar character _), inductionHypothesis,
        List.reverse_cons, List.append_assoc, List.singleton_append]

/-- A written text is scanned behind its opening quote as that text. -/
theorem scanText_quoted
    (text : String)
    (rest : Symbols) :
    scanText ⟨false, false⟩ [] ((text.toList.flatMap escapeChar).map some ++ some '"' :: rest) =
      .found (.text text) rest := by
  rw [scanText_escaped, List.append_nil, closeText]
  simp

/-! ## Ends of numbers -/

/-- Whether a symbol behind a number would be taken for a part of it. -/
def continuesNumber (symbol : Option Char) : Bool :=
  symbol.any Char.isDigit || symbol = some '.' || marksExponent symbol

/-- No symbol at the beginning continues a number. -/
def EndsNumber (rest : Symbols) : Prop :=
  ∀ symbol ∈ rest.head?, continuesNumber symbol = false

@[simp] theorem endsNumber_nil : EndsNumber [] :=
  fun _ member => absurd member (Option.not_mem_none _)

@[simp] theorem endsNumber_cons
    {symbol : Option Char}
    {rest : Symbols} :
    EndsNumber (symbol :: rest) ↔ continuesNumber symbol = false := by
  simp [EndsNumber]

section Append

variable {rest : Symbols}

/-- Digits are taken alike in front of what does not continue them. -/
theorem takeDigits_append
    (ends : EndsNumber rest)
    (symbols : Symbols) :
    takeDigits (symbols ++ rest) = ((takeDigits symbols).1, (takeDigits symbols).2 ++ rest) := by
  induction symbols with
  | nil =>
      cases rest with
      | nil => rfl
      | cons symbol rest =>
          have noDigit : symbol.filter Char.isDigit = none := by
            have ends := endsNumber_cons.mp ends
            cases symbol <;> simp_all [continuesNumber]
          rw [List.nil_append, takeDigits.eq_def]
          simp [noDigit, takeDigits]
  | cons symbol symbols inductionHypothesis =>
      rw [List.cons_append, takeDigits, takeDigits, inductionHypothesis]
      cases symbol.filter Char.isDigit with
      | none => rfl
      | some digit => rfl

/-- The digits of an exponent are scanned alike in front of what continues no number. -/
theorem scanExponentDigits_append
    (ends : EndsNumber rest)
    {negative downward : Bool}
    {whole places : List Char}
    {symbols behind : Symbols}
    {value : Json}
    (found : scanExponentDigits negative whole places downward symbols = .found value behind) :
    scanExponentDigits negative whole places downward (symbols ++ rest) =
      .found value (behind ++ rest) := by
  rw [scanExponentDigits] at found ⊢
  rw [takeDigits_append ends]
  rcases taken : takeDigits symbols with ⟨_ | ⟨digit, digits⟩, after⟩
  · rw [taken] at found
    exact absurd found (by simp)
  · rw [taken] at found
    simp only [Scan.found.injEq] at found ⊢
    exact ⟨found.1, by rw [found.2]⟩

/-- An exponent, or that there is none, is scanned alike in front of what continues no number.
-/
theorem scanExponent_append
    (ends : EndsNumber rest)
    {negative : Bool}
    {whole places : List Char}
    {symbols behind : Symbols}
    {value : Json}
    (found : scanExponent negative whole places symbols = .found value behind) :
    scanExponent negative whole places (symbols ++ rest) = .found value (behind ++ rest) := by
  cases symbols with
  | nil =>
      cases rest with
      | nil => rwa [List.append_nil, List.append_nil]
      | cons symbol rest =>
          have noMark : marksExponent symbol = false := by
            have ends := endsNumber_cons.mp ends
            simp_all [continuesNumber]
          simp only [scanExponent, List.nil_append, noMark, Bool.false_eq_true, if_false] at found ⊢
          split at found <;> simp_all
  | cons mark symbols =>
      simp only [scanExponent, List.cons_append] at found ⊢
      split at found
      next marks =>
        rw [if_pos marks]
        split at found
        next digits => exact scanExponentDigits_append ends found
        next digits => exact scanExponentDigits_append ends found
        next notMinus notPlus =>
          cases symbols with
          | nil => exact absurd found (by simp [scanExponentDigits, takeDigits])
          | cons digit digits =>
              rw [← scanExponentDigits_append ends found]
              split
              next => simp_all
              next => simp_all
              next => rfl
      next noMark =>
        rw [if_neg noMark]
        split at found <;>
          · simp only [Scan.found.injEq] at found
            simp_all [← found.2]

/-- A number is scanned alike in front of what continues none. -/
theorem scanNumber_append
    (ends : EndsNumber rest)
    {negative : Bool}
    {symbols behind : Symbols}
    {value : Json}
    (found : scanNumber negative symbols = .found value behind) :
    scanNumber negative (symbols ++ rest) = .found value (behind ++ rest) := by
  rw [scanNumber] at found ⊢
  rw [takeDigits_append ends]
  rcases taken : takeDigits symbols with ⟨whole, after⟩
  rw [taken] at found
  split at found
  next => exact absurd found (by simp)
  next => exact absurd found (by simp)
  next digits places someDigit noZero same =>
    obtain ⟨rfl, rfl⟩ := Prod.mk.inj same
    simp only [List.cons_append, takeDigits_append ends]
    rcases takenPlaces : takeDigits places with ⟨_ | ⟨place, more⟩, behindPlaces⟩
    · rw [takenPlaces] at found
      exact absurd found (by simp)
    · rw [takenPlaces] at found
      exact scanExponent_append ends found
  next digits behindDigits someDigit noZero noPoint same =>
    obtain ⟨rfl, rfl⟩ := Prod.mk.inj same
    have stillNoPoint : ∀ places, after ++ rest ≠ some '.' :: places := by
      intro places point
      cases after with
      | nil =>
          rw [List.nil_append] at point
          rw [point, endsNumber_cons] at ends
          exact absurd ends (by decide)
      | cons symbol symbols => exact noPoint symbols (by rw [(List.cons.inj point).1])
    rw [← scanExponent_append ends found]
    split
    next => simp_all
    next => simp_all
    next same => exact absurd (Prod.mk.inj same).2 (stillNoPoint _)
    next same =>
      obtain ⟨rfl, rfl⟩ := Prod.mk.inj same
      rfl

end Append

/-! ## Whole numbers -/

/-- No digit stands behind a leading zero. -/
theorem eq_zero_of_head?_toDigits
    {number : Nat}
    (leading : (Nat.toDigits 10 number).head? = some '0') :
    number = 0 := by
  induction number using Nat.strong_induction_on with
  | _ number inductionHypothesis =>
      by_cases small : number < 10
      · rw [Nat.toDigits_of_lt_base small, List.head?_cons, Option.some.injEq] at leading
        interval_cases number <;> revert leading <;> decide
      · rw [Nat.toDigits_of_base_le (by decide) (Nat.not_lt.mp small),
          List.head?_append_of_ne_nil _ Nat.toDigits_ne_nil] at leading
        have zero := inductionHypothesis (number / 10) (by omega) leading
        omega

/-- Of digits alone, all are taken. -/
theorem takeDigits_of_isDigit
    {digits : List Char}
    (areDigits : ∀ digit ∈ digits, digit.isDigit = true) :
    takeDigits (digits.map some) = (digits, []) := by
  induction digits with
  | nil => rfl
  | cons digit digits inductionHypothesis =>
      obtain ⟨isDigit, areDigits⟩ := List.forall_mem_cons.mp areDigits
      simp [takeDigits, Option.filter, isDigit, inductionHypothesis areDigits]

/-- Written digits are scanned as a whole number. -/
theorem scanNumber_write
    (negative : Bool)
    (value : Nat) :
    scanNumber negative ((Numeral.write value).map some) =
      .found (integral negative (Numeral.write value)) [] := by
  have taken : takeDigits ((Numeral.write value).map some) = (Numeral.write value, []) :=
    takeDigits_of_isDigit fun _ member => Nat.isDigit_of_mem_toDigits (by decide) le_rfl member
  rw [scanNumber, taken]
  split
  next same => exact absurd (Prod.mk.inj same).1 Nat.toDigits_ne_nil
  next first more _ same =>
    have digits : Nat.toDigits 10 value = '0' :: first :: more := (Prod.mk.inj same).1
    have zero := eq_zero_of_head?_toDigits (digits ▸ rfl : (Nat.toDigits 10 value).head? = _)
    rw [zero, Nat.toDigits_zero] at digits
    exact absurd digits (by simp)
  next same => exact absurd (Prod.mk.inj same).2 (by simp)
  next same =>
    obtain ⟨rfl, rfl⟩ := Prod.mk.inj same
    rfl

/-- The digits of a whole number that fits are taken for that number. -/
theorem integral_write_natural
    {value : Nat}
    (fits : value < Numeral.wordLimit 64) :
    integral false (Numeral.write value) = .natural value := by
  rw [integral, Numeral.write, Nat.ofDigitChars_ten_toDigits, if_neg (Nat.not_le.mpr fits)]
  rfl

/-- Digits behind a sign are taken for the negative number if it fits. -/
theorem integral_write_negative
    {size : Nat}
    (positive : 0 < size)
    (fits : size ≤ Numeral.wordLimit 63) :
    integral true (Numeral.write size) = .negative size := by
  have small : size < Numeral.wordLimit 64 := Nat.lt_of_le_of_lt fits (by decide)
  rw [integral, Numeral.write, Nat.ofDigitChars_ten_toDigits, if_neg (Nat.not_le.mpr small),
    if_pos rfl, if_neg]
  omega

/-! ## Values without parts -/

/-- What begins with a digit is scanned as a number. -/
theorem scanScalar_of_beginsWithDigit
    {text : List Char}
    (begins : Decimal.Format.BeginsWithDigit text)
    (rest : Symbols) :
    scanScalar (text.map some ++ rest) = scanNumber false (text.map some ++ rest) := by
  obtain ⟨first, isFirst, isDigit⟩ := begins
  obtain ⟨more, rfl⟩ := List.head?_eq_some_iff.mp isFirst
  rw [List.map_cons, List.cons_append]
  unfold scanScalar
  split
  case h_6 => rfl
  all_goals simp_all [Char.isDigit]

/-- The number that a text is scanned as, if all of it is one. -/
def scannedNumber? (text : String) : Option Float :=
  match scanScalar (text.toList.map some) with
  | .found (.number value) [] => some value
  | _ => none

/-- The text of a number is scanned as that number. -/
def ReadsBack (value : Float) : Prop :=
  scannedNumber? (numberFormat.write value) = some value

instance : DecidablePred ReadsBack :=
  fun value => inferInstanceAs (Decidable (scannedNumber? (numberFormat.write value) = some value))

/-- A number that reads back is scanned from its text, which leaves nothing. -/
theorem ReadsBack.scanScalar
    {value : Float}
    (back : ReadsBack value) :
    Json.scanScalar ((numberFormat.write value).toList.map some) = .found (.number value) [] := by
  rw [ReadsBack, scannedNumber?] at back
  split at back
  next scanned found =>
    rw [found, Option.some.inj back]
  next => exact absurd back (Option.some_ne_none value).symm

/-- Only a finite number is read back, for any other value is written as null. -/
theorem ReadsBack.isFinite
    {value : Float}
    (back : ReadsBack value) :
    value.isFinite = true := by
  by_contra infinite
  have isNull : numberFormat.write value = "null" := by
    rw [Decimal.Format.write, if_neg infinite]
    split_ifs <;> rfl
  have scanned := back.scanScalar
  rw [isNull] at scanned
  exact absurd scanned (by simp [Json.scanScalar, scanWord])

/-- What reads back on its own reads back in front of what does not continue it. -/
theorem ReadsBack.scanScalar_append
    {value : Float}
    {rest : Symbols}
    (back : ReadsBack value)
    (ends : EndsNumber rest) :
    Json.scanScalar ((numberFormat.write value).toList.map some ++ rest) =
      .found (.number value) rest := by
  have scanned := back.scanScalar
  obtain ⟨digits, begins, same | same⟩ := writesNumber_of_isFinite back.isFinite
  all_goals rw [writeAt] at same
  all_goals rw [same] at scanned
  · have alone : scanNumber false (digits.map some) = .found (.number value) [] := by
      rw [← scanned, ← List.append_nil (digits.map some), scanScalar_of_beginsWithDigit begins]
    rw [same, scanScalar_of_beginsWithDigit begins]
    exact scanNumber_append ends alone
  · have alone : scanNumber true (digits.map some) = .found (.number value) [] := scanned
    rw [same]
    exact scanNumber_append ends alone

end Json
end FlameProfile
