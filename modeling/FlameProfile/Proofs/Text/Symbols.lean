import Mathlib
import FlameProfile.Text.Symbols

/-!
# Symbols of an encoded text

The symbols of the encoding of a text are its characters, so a file that holds a
written text is read as that text.
-/

namespace FlameProfile
namespace Text

theorem size_utf8Encode_singleton (character : Char) :
    [character].utf8Encode.size = character.utf8Size := by
  rw [List.utf8Encode_singleton, List.size_toByteArray, String.length_utf8EncodeChar]

/-- Behind the encoding of some characters, the next one is decoded. -/
theorem utf8DecodeChar?_utf8Encode_append
    (front : List Char)
    (character : Char)
    (later : List Char) :
    (front ++ character :: later).utf8Encode.utf8DecodeChar? front.utf8Encode.size =
      some character := by
  rw [ByteArray.utf8DecodeChar?_eq_utf8DecodeChar?_extract, List.utf8Encode_append,
    ByteArray.extract_append, ByteArray.extract_eq_empty_iff.mpr (by simp), ByteArray.size_append,
    Nat.sub_self, Nat.add_sub_cancel_left, ByteArray.extract_zero_size, ByteArray.empty_append,
    List.utf8DecodeChar?_utf8Encode_cons]

/-- Behind the encoding of some characters stand the symbols of the rest. -/
theorem symbolsFrom_utf8Encode_append
    (front later : List Char) :
    symbolsFrom (front ++ later).utf8Encode front.utf8Encode.size = later.map some := by
  induction later generalizing front with
  | nil => rw [symbolsFrom, List.append_nil, if_neg (Nat.lt_irrefl _), List.map_nil]
  | cons character later inductionHypothesis =>
      have positive := character.utf8Size_pos
      have size := size_utf8Encode_singleton character
      have inside : front.utf8Encode.size < (front ++ character :: later).utf8Encode.size := by
        rw [List.utf8Encode_append, List.utf8Encode_cons, ByteArray.size_append,
          ByteArray.size_append]
        omega
      have longer : (front ++ [character]).utf8Encode.size =
          front.utf8Encode.size + character.utf8Size := by
        rw [List.utf8Encode_append, ByteArray.size_append, size]
      have next := inductionHypothesis (front ++ [character])
      rw [List.append_assoc, List.singleton_append, longer] at next
      rw [symbolsFrom, if_pos inside, utf8DecodeChar?_utf8Encode_append, List.map_cons]
      exact congrArg _ next

/-- The symbols of an encoded text are its characters. -/
theorem symbols_toUTF8 (text : String) :
    symbols text.toUTF8 = text.toList.map some := by
  have encoded : text.toUTF8 = text.toList.utf8Encode := by
    rw [String.toUTF8_eq_toByteArray, ← String.toByteArray_ofList, String.ofList_toList]
  rw [symbols, encoded]
  exact symbolsFrom_utf8Encode_append [] text.toList

end Text
end FlameProfile
