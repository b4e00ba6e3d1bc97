import Mathlib
import FlameProfile.Event.Key
import FlameProfile.Proofs.Decimal.Numeral
import FlameProfile.Proofs.Text.Fields

/-!
# What event keys say

A text is read as an event key exactly if it is the source, the function, a numeral of
the line and the thread with colons between them, where neither the function nor the
thread is empty or holds a colon. The source may hold any number of colons: the three
last ones of the text are those that separate.
-/

namespace FlameProfile

/-- A text is read as a line if it is a numeral of it. -/
theorem Location.readLine_eq_ok_iff
    {text : List Char}
    {line : UInt32} :
    readLine text = .ok line ↔ Numeral.Denotes text line.toNat := by
  have isRead := @Numeral.read_eq_ok_iff (Numeral.wordLimit 32)
  rw [readLine]
  constructor
  · intro found
    split at found
    next value valueRead =>
      obtain ⟨denotes, bounded⟩ := isRead.mp valueRead
      rw [← Except.ok.inj found, UInt32.toNat_ofNat_of_lt' bounded]
      exact denotes
    next => exact absurd found (by simp)
  · intro denotes
    rw [isRead.mpr ⟨denotes, line.toNat_lt⟩]
    exact congrArg Except.ok (UInt32.ofNat_toNat)

namespace EventKey

/-- A text puts the parts of a key together, with a numeral for the line. -/
structure IsTextOf
    (key : EventKey)
    (text numeral : List Char) : Prop where
  joined : text = key.source.toList ++ ':' :: key.function.toList ++ ':' :: numeral ++
    ':' :: key.thread.toList
  function_nonempty : key.function ≠ ""
  function_free : ':' ∉ key.function.toList
  line : Numeral.Denotes numeral key.line.toNat
  thread_nonempty : key.thread ≠ ""
  thread_free : ':' ∉ key.thread.toList

/-- A numeral holds no separator. -/
theorem colon_not_mem_of_denotes
    {numeral : List Char}
    {value : Nat}
    (denotes : Numeral.Denotes numeral value) :
    ':' ∉ numeral := by
  obtain ⟨digits, isNumeral, _, areDigits, _⟩ := denotes
  have notDigit : ':' ∉ digits := fun member => absurd (areDigits ':' member) (by decide)
  rcases isNumeral with rfl | rfl
  · exact notDigit
  · simpa using notDigit

theorem isTextOf_of_read
    {text : String}
    {key : EventKey}
    (isRead : read text = .ok key) :
    ∃ numeral, IsTextOf key text.toList numeral := by
  unfold read at isRead
  split at isRead
  next thread numeral function source cut =>
    obtain ⟨joined, threadFree, _, functionFree⟩ := Text.fieldsFromEnd_eq_four_iff.mp cut
    split at isRead
    next => exact absurd isRead (by simp)
    next functionNonempty =>
      split at isRead
      next => exact absurd isRead (by simp)
      next threadNonempty =>
        split at isRead
        next line lineRead =>
          rw [Except.ok.injEq] at isRead
          subst isRead
          refine ⟨numeral, ?_, ?_, ?_, Location.readLine_eq_ok_iff.mp lineRead, ?_, ?_⟩
          · simpa only [String.toList_ofList] using joined
          · rwa [Ne, ← String.toList_eq_nil_iff, String.toList_ofList]
          · rwa [String.toList_ofList]
          · rwa [Ne, ← String.toList_eq_nil_iff, String.toList_ofList]
          · rwa [String.toList_ofList]
        next => exact absurd isRead (by simp)
  next => exact absurd isRead (by simp)

/-- A text is read as a key if it puts the parts of the key together. -/
theorem read_eq_ok_iff
    {text : String}
    {key : EventKey} :
    read text = .ok key ↔ ∃ numeral, IsTextOf key text.toList numeral := by
  refine ⟨isTextOf_of_read, ?_⟩
  rintro ⟨numeral, isText⟩
  have cut := Text.fieldsFromEnd_eq_four_iff.mpr ⟨isText.joined, isText.thread_free,
    colon_not_mem_of_denotes isText.line, isText.function_free⟩
  rw [read, cut]
  simp only [String.toList_eq_nil_iff, isText.function_nonempty, isText.thread_nonempty,
    Location.readLine_eq_ok_iff.mpr isText.line, String.ofList_toList, if_false]

end EventKey
end FlameProfile
