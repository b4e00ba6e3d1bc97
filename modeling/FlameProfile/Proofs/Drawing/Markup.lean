import Mathlib
import FlameProfile.Drawing.Markup

/-!
# What a text can do to markup

An escaped text has no character that begins or ends a tag or a value, each of its
ampersands begins an entity, and the text can be read back from it. So the tags of a
document are those of the pieces between its texts.
-/

namespace FlameProfile
namespace Markup

/-! ## Entities -/

/-- The entities that stand for the characters of markup. -/
def entities : List String :=
  ["&amp;", "&lt;", "&gt;", "&quot;"]

/-- Read entities as the characters that they stand for. -/
def readEntities : List Char -> List Char
  | [] => []
  | '&' :: 'a' :: 'm' :: 'p' :: ';' :: rest => '&' :: readEntities rest
  | '&' :: 'l' :: 't' :: ';' :: rest => '<' :: readEntities rest
  | '&' :: 'g' :: 't' :: ';' :: rest => '>' :: readEntities rest
  | '&' :: 'q' :: 'u' :: 'o' :: 't' :: ';' :: rest => '"' :: readEntities rest
  | character :: rest => character :: readEntities rest

/-- The text that an escaped text stands for. -/
def unescape (text : String) : String :=
  String.ofList (readEntities text.toList)

theorem toList_escape (text : String) :
    (escape text).toList = text.toList.flatMap escapeChar := by
  rw [escape, String.toList_ofList]

theorem escape_append (first second : String) :
    escape (first ++ second) = escape first ++ escape second := by
  simp [escape, String.toList_append, List.flatMap_append, String.ofList_append]

/-- An entity has one ampersand, at its beginning. -/
theorem entity_eq_ampersand_cons
    {entity : String}
    (isEntity : entity ∈ entities) :
    ∃ name, entity.toList = '&' :: name ∧ '&' ∉ name := by
  have begins : ∀ entity ∈ entities,
      entity.toList = '&' :: entity.toList.tail ∧ '&' ∉ entity.toList.tail := by
    decide +kernel
  exact ⟨_, begins entity isEntity⟩

/-- A character stands for itself unless markup is made of it. -/
theorem escapeChar_eq_singleton_or (character : Char) :
    (character ∉ ['&', '<', '>', '"'] ∧ escapeChar character = [character]) ∨
      ∃ entity ∈ entities, escapeChar character = entity.toList := by
  unfold escapeChar
  split
  case h_5 notAmpersand notLess notGreater notQuote =>
    exact .inl ⟨by simp_all, rfl⟩
  all_goals exact .inr ⟨_, by decide, rfl⟩

/-- No escaped character begins or ends a tag or a value. -/
theorem not_mem_escapeChar
    {delimiter : Char}
    (delimits : delimiter ∈ ['<', '>', '"'])
    (character : Char) :
    delimiter ∉ escapeChar character := by
  rcases escapeChar_eq_singleton_or character with ⟨ordinary, same⟩ | ⟨entity, isEntity, same⟩
  · rw [same, List.mem_singleton]
    rintro rfl
    exact ordinary (List.mem_cons_of_mem _ delimits)
  · rw [same]
    have apart : ∀ entity ∈ entities, ∀ delimiter ∈ ['<', '>', '"'],
        delimiter ∉ entity.toList := by simp [entities]
    exact apart entity isEntity delimiter delimits

theorem not_mem_escape
    {delimiter : Char}
    (delimits : delimiter ∈ ['<', '>', '"'])
    (text : String) :
    delimiter ∉ (escape text).toList := by
  rw [toList_escape, List.mem_flatMap]
  rintro ⟨character, -, found⟩
  exact not_mem_escapeChar delimits character found

/-- A suffix begins behind what its first character does not occur in. -/
theorem suffix_of_suffix_append
    {first : Char}
    {after front rest : List Char}
    (absent : first ∉ front)
    (suffix : first :: after <:+ front ++ rest) :
    first :: after <:+ rest := by
  induction front with
  | nil => exact suffix
  | cons character front inductionHypothesis =>
      rw [List.mem_cons, not_or] at absent
      rcases List.suffix_cons_iff.mp suffix with same | later
      · exact absurd (List.cons.inj same).1 absent.1
      · exact inductionHypothesis absent.2 later

/-- An ampersand among escaped characters begins an entity. -/
theorem exists_entity_isPrefix
    {after : List Char}
    {text : String}
    (ampersand : '&' :: after <:+ (escape text).toList) :
    ∃ entity ∈ entities, entity.toList <+: '&' :: after := by
  rw [toList_escape] at ampersand
  revert ampersand
  induction text.toList with
  | nil => exact fun ampersand => absurd (List.suffix_nil.mp ampersand) (List.cons_ne_nil _ _)
  | cons character characters inductionHypothesis =>
      intro ampersand
      rw [List.flatMap_cons] at ampersand
      rcases escapeChar_eq_singleton_or character with
        ⟨ordinary, same⟩ | ⟨entity, isEntity, same⟩
      · refine inductionHypothesis (suffix_of_suffix_append ?_ ampersand)
        rw [same, List.mem_singleton]
        rintro rfl
        exact ordinary List.mem_cons_self
      · obtain ⟨name, whole, single⟩ := entity_eq_ampersand_cons isEntity
        rw [same, whole, List.cons_append] at ampersand
        rcases List.suffix_cons_iff.mp ampersand with here | later
        · exact ⟨entity, isEntity, whole ▸ here ▸ List.prefix_append _ _⟩
        · exact inductionHypothesis (suffix_of_suffix_append single later)

theorem readEntities_escapeChar_append
    (character : Char)
    (rest : List Char) :
    readEntities (escapeChar character ++ rest) = character :: readEntities rest := by
  unfold escapeChar
  split
  case h_5 notAmpersand notLess notGreater notQuote =>
    rw [List.singleton_append, readEntities]
    all_goals
      rintro - rfl
      contradiction
  all_goals rfl

/-- A text can be read back after escaping. -/
theorem unescape_escape (text : String) : unescape (escape text) = text := by
  rw [unescape, toList_escape]
  suffices read : readEntities (text.toList.flatMap escapeChar) = text.toList by
    rw [read, String.ofList_toList]
  induction text.toList with
  | nil => rfl
  | cons character characters inductionHypothesis =>
      rw [List.flatMap_cons, readEntities_escapeChar_append, inductionHypothesis]

/-- Texts are told apart after escaping. -/
theorem escape_injective : Function.Injective escape :=
  Function.LeftInverse.injective unescape_escape

/-! ## Tags -/

/-- The names of the tags that begin in a text: what stands between a less-than sign and
the next blank or greater-than sign. -/
def tags : List Char -> List String
  | [] => []
  | character :: rest =>
      if character = '<' then
        String.ofList (rest.takeWhile fun next => next ≠ ' ' && next ≠ '>') :: tags rest
      else
        tags rest

/-- Every less-than sign begins a tag. -/
theorem length_tags (symbols : List Char) : (tags symbols).length = symbols.count '<' := by
  induction symbols with
  | nil => rfl
  | cons character rest inductionHypothesis =>
      rw [tags, List.count_cons]
      split
      next begins => simp [begins, inductionHypothesis]
      next continues => simp [continues, inductionHypothesis]

theorem tags_append_of_not_mem
    {symbols : List Char}
    (noTag : '<' ∉ symbols)
    (rest : List Char) :
    tags (symbols ++ rest) = tags rest := by
  induction symbols with
  | nil => rfl
  | cons character more inductionHypothesis =>
      rw [List.mem_cons, not_or] at noTag
      rw [List.cons_append, tags, if_neg (Ne.symm noTag.1), inductionHypothesis noTag.2]

/-- Wherever a text stands in a document, it has tags with these names. -/
def HasTags
    (text : String)
    (names : List String) : Prop :=
  ∀ rest, tags (text.toList ++ rest) = names ++ tags rest

theorem HasTags.tags_eq
    {text : String}
    {names : List String}
    (hasTags : HasTags text names) :
    tags text.toList = names := by
  have alone := hasTags []
  rwa [List.append_nil, tags, List.append_nil] at alone

theorem HasTags.append
    {first second : String}
    {firstNames secondNames : List String}
    (firstHas : HasTags first firstNames)
    (secondHas : HasTags second secondNames) :
    HasTags (first ++ second) (firstNames ++ secondNames) := by
  intro rest
  rw [String.toList_append, List.append_assoc, firstHas, secondHas, List.append_assoc]

theorem hasTags_of_not_mem
    {text : String}
    (noTag : '<' ∉ text.toList) :
    HasTags text [] :=
  tags_append_of_not_mem noTag

/-- An escaped text has no tags. -/
theorem hasTags_escape (text : String) : HasTags (escape text) [] :=
  hasTags_of_not_mem (not_mem_escape (by decide) text)

end Markup
end FlameProfile
