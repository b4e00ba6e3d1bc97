import Mathlib
import FlameProfile.Text.Fields

/-!
# What the fields of a text are

Fields put together with separators between them give the text back. None but the
field at the far end holds a separator, and that one does only if no cut was left.
There is one such row of fields for each text, so a text can be cut by saying how it is
put together. What is put behind a text that is cut at every separator goes to its last
piece.
-/

namespace FlameProfile
namespace Text

variable {separator : Char} {cuts : Nat} {text field rest : List Char} {parts : List (List Char)}

/-- A text is put together from fields with the given number of cuts at most. -/
@[mk_iff]
structure AreFields
    (separator : Char)
    (cuts : Nat)
    (text : List Char)
    (parts : List (List Char)) : Prop where
  joined : text = [separator].intercalate parts
  nonempty : parts ≠ []
  bounded : parts.length ≤ cuts + 1
  free : ∀ part ∈ parts.dropLast, separator ∉ part
  last : parts.length ≤ cuts → ∀ part ∈ parts, separator ∉ part

/-! ## Cutting once -/

theorem cut_of_not_mem
    (free : separator ∉ text) :
    cut separator text = (text, none) := by
  induction text with
  | nil => rfl
  | cons character rest inductionHypothesis =>
      rw [List.mem_cons, not_or] at free
      rw [cut, if_neg (Ne.symm free.1), inductionHypothesis free.2]

theorem cut_append
    (free : separator ∉ field)
    (rest : List Char) :
    cut separator (field ++ separator :: rest) = (field, some rest) := by
  induction field with
  | nil => rw [List.nil_append, cut, if_pos rfl]
  | cons character others inductionHypothesis =>
      rw [List.mem_cons, not_or] at free
      rw [List.cons_append, cut, if_neg (Ne.symm free.1), inductionHypothesis free.2]

/-! ## Cutting into fields -/

/-- Cutting makes fields. -/
theorem areFields_fields
    (separator : Char)
    (cuts : Nat)
    (text : List Char) :
    AreFields separator cuts text (fields separator cuts text) := by
  induction cuts generalizing text with
  | zero => constructor <;> simp [fields]
  | succ cuts inductionHypothesis =>
      have joined := cut_join separator text
      have free := separator_not_mem_cut separator text
      rw [fields]
      split
      next field found =>
        rw [found, Option.elim_none, List.append_nil] at joined
        rw [found] at free
        subst joined
        constructor <;> simp [free]
      next field rest found =>
        rw [found, Option.elim_some] at joined
        rw [found] at free
        have areFields := inductionHypothesis rest
        obtain ⟨first, others, areRest⟩ := List.exists_cons_of_ne_nil areFields.nonempty
        rw [areRest] at areFields ⊢
        constructor
        case joined => rw [List.intercalate_cons_cons, ← areFields.joined, ← joined]; simp
        case nonempty => exact List.cons_ne_nil _ _
        case bounded => exact Nat.succ_le_succ areFields.bounded
        case free =>
          rw [List.dropLast_cons_cons]
          exact List.forall_mem_cons.mpr ⟨free, areFields.free⟩
        case last =>
          intro few
          exact List.forall_mem_cons.mpr ⟨free, areFields.last (Nat.le_of_succ_le_succ few)⟩

/-- What a text is put together from is what it is cut into. -/
theorem AreFields.fields_eq
    (areFields : AreFields separator cuts text parts) :
    fields separator cuts text = parts := by
  induction cuts generalizing text parts with
  | zero =>
      obtain ⟨part, isPart⟩ := List.length_eq_one_iff.mp
        (le_antisymm areFields.bounded (List.length_pos_iff.mpr areFields.nonempty))
      subst isPart
      rw [fields, areFields.joined, List.intercalate_singleton]
  | succ cuts inductionHypothesis =>
      obtain ⟨joined, nonempty, bounded, free, last⟩ := areFields
      match parts with
      | [] => exact absurd rfl nonempty
      | [field] =>
          have fieldFree := last (Nat.succ_le_succ (Nat.zero_le cuts)) field List.mem_cons_self
          rw [List.intercalate_singleton] at joined
          rw [fields, joined, cut_of_not_mem fieldFree]
      | field :: next :: others =>
          rw [List.dropLast_cons_cons] at free
          obtain ⟨fieldFree, othersFree⟩ := List.forall_mem_cons.mp free
          have rest : AreFields separator cuts ([separator].intercalate (next :: others))
              (next :: others) := {
            joined := rfl
            nonempty := List.cons_ne_nil _ _
            bounded := Nat.le_of_succ_le_succ bounded
            free := othersFree
            last := fun few => (List.forall_mem_cons.mp (last (Nat.succ_le_succ few))).2 }
          rw [List.intercalate_cons_cons, List.append_assoc, List.singleton_append] at joined
          rw [fields, joined, cut_append fieldFree]
          exact congrArg (field :: ·) (inductionHypothesis rest)

/-- A text is cut into what it is put together from. -/
theorem fields_eq_iff : fields separator cuts text = parts ↔ AreFields separator cuts text parts :=
  ⟨fun cutInto => cutInto ▸ areFields_fields separator cuts text, AreFields.fields_eq⟩

/-- From its end a text is cut into what it is put together from, the last field
first. -/
theorem fieldsFromEnd_eq_iff :
    fieldsFromEnd separator cuts text = parts ↔
      AreFields separator cuts text.reverse (parts.map List.reverse) := by
  rw [← fields_eq_iff, fieldsFromEnd]
  constructor
  · rintro rfl
    simp
  · intro cutInto
    rw [cutInto]
    simp

/-! ## Two and three cuts -/

variable {first second third fourth : List Char}

theorem fields_eq_three_iff :
    fields separator 3 text = [first, second, third] ↔
      text = first ++ separator :: second ++ separator :: third ∧
        separator ∉ first ∧ separator ∉ second ∧ separator ∉ third := by
  rw [fields_eq_iff, areFields_iff]
  simp +contextual

theorem fields_eq_four_iff :
    fields separator 3 text = [first, second, third, fourth] ↔
      text = first ++ separator :: second ++ separator :: third ++ separator :: fourth ∧
        separator ∉ first ∧ separator ∉ second ∧ separator ∉ third := by
  rw [fields_eq_iff, areFields_iff]
  simp

theorem fieldsFromEnd_eq_three_iff :
    fieldsFromEnd separator 2 text = [third, second, first] ↔
      text = first ++ separator :: second ++ separator :: third ∧
        separator ∉ third ∧ separator ∉ second := by
  rw [fieldsFromEnd_eq_iff, areFields_iff]
  simp [List.reverse_eq_iff]

theorem fieldsFromEnd_eq_four_iff :
    fieldsFromEnd separator 3 text = [fourth, third, second, first] ↔
      text = first ++ separator :: second ++ separator :: third ++ separator :: fourth ∧
        separator ∉ fourth ∧ separator ∉ third ∧ separator ∉ second := by
  rw [fieldsFromEnd_eq_iff, areFields_iff]
  simp [List.reverse_eq_iff]

/-! ## Cutting at every separator -/

/-- A text has a piece more than separators. -/
theorem length_pieces
    (separator : Char)
    (text : List Char) :
    (pieces separator text).length = text.count separator + 1 := by
  induction text with
  | nil => rfl
  | cons character rest inductionHypothesis =>
      obtain ⟨piece, others, areRest⟩ :=
        List.exists_cons_of_ne_nil (pieces_ne_nil separator rest)
      rw [areRest, List.length_cons] at inductionHypothesis
      rw [pieces, areRest, List.count_cons]
      by_cases same : character = separator
      · simp [same, inductionHypothesis]
      · simp [same, inductionHypothesis]

theorem pieces_of_not_mem
    (free : separator ∉ text) :
    pieces separator text = [text] := by
  induction text with
  | nil => rfl
  | cons character others inductionHypothesis =>
      rw [List.mem_cons, not_or] at free
      rw [pieces, if_neg (Ne.symm free.1), inductionHypothesis free.2]

/-- What holds no separator lengthens the last piece. -/
theorem exists_pieces_append
    (free : separator ∉ rest)
    (text : List Char) :
    ∃ front last, pieces separator text = front ++ [last] ∧
      pieces separator (text ++ rest) = front ++ [last ++ rest] := by
  induction text with
  | nil => exact ⟨[], [], rfl, pieces_of_not_mem free⟩
  | cons character others inductionHypothesis =>
      obtain ⟨front, last, isPieces, isLengthened⟩ := inductionHypothesis
      rw [List.cons_append, pieces, pieces, isPieces, isLengthened]
      by_cases same : character = separator
      · exact ⟨[] :: front, last, by simp [same], by simp [same]⟩
      · cases front with
        | nil => exact ⟨[], character :: last, by simp [same], by simp [same]⟩
        | cons piece between =>
            exact ⟨(character :: piece) :: between, last, by simp [same], by simp [same]⟩

end Text
end FlameProfile
