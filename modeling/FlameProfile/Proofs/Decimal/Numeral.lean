import Mathlib
import FlameProfile.Decimal.Numeral

/-!
# What numerals say

A text is read as a value below the limit exactly if it is a row of digits of that
value, behind a plus sign or not. Leading zeros change nothing.
-/

namespace FlameProfile
namespace Numeral

variable {limit value start : Nat} {text digits : List Char}

/-- A text is a row of digits, at least one, of a value, and a plus sign may precede
it. -/
def Denotes (text : List Char) (value : Nat) : Prop :=
  ∃ digits : List Char, (text = digits ∨ text = '+' :: digits) ∧ digits ≠ [] ∧
    (∀ digit ∈ digits, digit.isDigit = true) ∧ Nat.ofDigitChars 10 digits 0 = value

/-- Digits that are read are digits of the value that is read. -/
theorem of_readDigits
    (isRead : readDigits limit start digits = .ok value) :
    (∀ digit ∈ digits, digit.isDigit = true) ∧ Nat.ofDigitChars 10 digits start = value ∧
      (digits ≠ [] → value < limit) := by
  induction digits generalizing start with
  | nil =>
      rw [readDigits, Except.ok.injEq] at isRead
      exact ⟨by simp, by simpa using isRead, fun nonempty => absurd rfl nonempty⟩
  | cons digit rest inductionHypothesis =>
      rw [readDigits] at isRead
      split at isRead
      next isDigit =>
        split at isRead
        next small =>
          obtain ⟨areDigits, denoted, bounded⟩ := inductionHypothesis isRead
          refine ⟨List.forall_mem_cons.mpr ⟨isDigit, areDigits⟩, ?_, ?_⟩
          · rw [Nat.ofDigitChars_cons]
            exact denoted
          · intro _
            cases rest with
            | nil =>
                rw [readDigits, Except.ok.injEq] at isRead
                exact isRead ▸ small
            | cons => exact bounded (List.cons_ne_nil _ _)
        next => exact absurd isRead (by simp)
      next => exact absurd isRead (by simp)

theorem readDigits_eq_ok_iff
    (nonempty : digits ≠ []) :
    readDigits limit 0 digits = .ok value ↔
      (∀ digit ∈ digits, digit.isDigit = true) ∧ Nat.ofDigitChars 10 digits 0 = value ∧
        value < limit := by
  constructor
  · intro isRead
    obtain ⟨areDigits, denoted, bounded⟩ := of_readDigits isRead
    exact ⟨areDigits, denoted, bounded nonempty⟩
  · rintro ⟨areDigits, rfl, bounded⟩
    exact readDigits_of_lt areDigits bounded

theorem read_plus
    (limit : Nat)
    (nonempty : digits ≠ []) :
    read limit ('+' :: digits) = readDigits limit 0 digits := by
  cases digits with
  | nil => exact absurd rfl nonempty
  | cons => rfl

theorem read_of_ne_plus
    (limit : Nat)
    {first : Char}
    (unsigned : first ≠ '+')
    (rest : List Char) :
    read limit (first :: rest) = readDigits limit 0 (first :: rest) := by
  unfold read
  split <;> simp_all

/-- A plus sign is no digit, so behind it stand all of the digits. -/
theorem denotes_plus_iff :
    Denotes ('+' :: digits) value ↔ digits ≠ [] ∧ (∀ digit ∈ digits, digit.isDigit = true) ∧
      Nat.ofDigitChars 10 digits 0 = value := by
  constructor
  · rintro ⟨others, rfl | same, nonempty, areDigits, denoted⟩
    · exact absurd (areDigits '+' List.mem_cons_self) (by decide)
    · rw [(List.cons.inj same).2]
      exact ⟨nonempty, areDigits, denoted⟩
  · exact fun areDigits => ⟨digits, .inr rfl, areDigits⟩

theorem denotes_iff_of_ne_plus
    {first : Char}
    (unsigned : first ≠ '+')
    (rest : List Char) :
    Denotes (first :: rest) value ↔ (∀ digit ∈ first :: rest, digit.isDigit = true) ∧
      Nat.ofDigitChars 10 (first :: rest) 0 = value := by
  constructor
  · rintro ⟨digits, rfl | same, _, areDigits, denoted⟩
    · exact ⟨areDigits, denoted⟩
    · exact absurd (List.cons.inj same).1 unsigned
  · exact fun areDigits => ⟨first :: rest, .inl rfl, List.cons_ne_nil _ _, areDigits⟩

/-- A numeral is read if it denotes a value below the limit, and then as that value. -/
theorem read_eq_ok_iff : read limit text = .ok value ↔ Denotes text value ∧ value < limit := by
  cases text with
  | nil =>
      refine iff_of_false (by simp [read]) ?_
      rintro ⟨⟨digits, isDigits | signed, nonempty, _⟩, _⟩
      · exact nonempty isDigits.symm
      · exact absurd signed (by simp)
  | cons first rest =>
      by_cases signed : first = '+'
      · subst signed
        rw [denotes_plus_iff]
        by_cases empty : rest = []
        · subst empty
          exact iff_of_false (by simp [read]) fun denotes => denotes.1.1 rfl
        · rw [read_plus limit empty, readDigits_eq_ok_iff empty, and_assoc, and_assoc]
          exact (and_iff_right empty).symm
      · rw [read_of_ne_plus limit signed, readDigits_eq_ok_iff (List.cons_ne_nil _ _),
          denotes_iff_of_ne_plus signed, and_assoc]

/-- A written value is a numeral of it. -/
theorem denotes_write (value : Nat) : Denotes (write value) value :=
  ⟨write value, .inl rfl, Nat.toDigits_ne_nil,
    fun _ member => Nat.isDigit_of_mem_toDigits (by decide) le_rfl member,
    Nat.ofDigitChars_ten_toDigits⟩

end Numeral
end FlameProfile
