/-!
# Fields of a text

A text is cut at a separator character into fields. The number of cuts can be
bounded, from either end; the field at the far end then keeps the separators
that are left.
-/

namespace FlameProfile
namespace Text

/-- The characters before the first separator and, if there is a separator,
the characters after it. -/
def cut (separator : Char) : List Char -> List Char × Option (List Char)
  | [] => ([], none)
  | character :: rest =>
      if character = separator then
        ([], some rest)
      else
        (character :: (cut separator rest).1, (cut separator rest).2)

/-- Cut a text at the first separators, at most the given number of times. -/
def fields (separator : Char) : Nat -> List Char -> List (List Char)
  | 0, text => [text]
  | cuts + 1, text =>
      match cut separator text with
      | (field, none) => [field]
      | (field, some rest) => field :: fields separator cuts rest

/-- Cut a text at the last separators, at most the given number of times. The
last field comes first. -/
def fieldsFromEnd
    (separator : Char)
    (cuts : Nat)
    (text : List Char) : List (List Char) :=
  (fields separator cuts text.reverse).map List.reverse

/-- Cut a text at every separator. -/
def pieces (separator : Char) : List Char -> List (List Char)
  | [] => [[]]
  | character :: rest =>
      if character = separator then
        [] :: pieces separator rest
      else
        match pieces separator rest with
        | [] => [[character]]
        | piece :: others => (character :: piece) :: others

/-- Cutting and then joining the two parts gives the text back. -/
theorem cut_join
    (separator : Char)
    (text : List Char) :
    (cut separator text).1 ++
      ((cut separator text).2.elim [] fun rest => separator :: rest) = text := by
  induction text with
  | nil => rfl
  | cons character rest induction =>
      by_cases same : character = separator
      · simp [cut, same]
      · simpa [cut, same] using induction

/-- The part before the cut holds no separator. -/
theorem separator_not_mem_cut
    (separator : Char)
    (text : List Char) :
    separator ∉ (cut separator text).1 := by
  induction text with
  | nil => simp [cut]
  | cons character rest induction =>
      by_cases same : character = separator
      · simp [cut, same]
      · simpa [cut, same, Ne.symm same] using induction

/-- A text has at least one piece. -/
theorem pieces_ne_nil
    (separator : Char)
    (text : List Char) :
    pieces separator text ≠ [] := by
  induction text with
  | nil => simp [pieces]
  | cons character rest _ =>
      unfold pieces
      split
      · simp
      · split <;> simp

/-- The pieces of two texts with a separator between them are the pieces of
the one followed by the pieces of the other. -/
theorem pieces_append
    (separator : Char)
    (first second : List Char) :
    pieces separator (first ++ separator :: second) =
      pieces separator first ++ pieces separator second := by
  induction first with
  | nil => simp [pieces]
  | cons character rest induction =>
      by_cases same : character = separator
      · simp [pieces, same, induction]
      · cases inner : pieces separator rest with
        | nil => exact absurd inner (pieces_ne_nil separator rest)
        | cons piece others => simp [pieces, same, induction, inner]

end Text
end FlameProfile
