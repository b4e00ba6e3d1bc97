/-!
# Texts and names in settings

A text stands between single quotes as it is, or between double quotes with
escape sequences behind a backslash. Three quotes on each side allow it to go
over several lines; a line break right behind the opening quotes is left out,
and a backslash at the end of a line joins it to the next one. The name of a
setting is one or more parts between points; a part is a text on one line or a
word of letters, digits, hyphens and underscores.

Line ends are single line feeds here: `joinLineEnds` makes them so.
-/

namespace FlameProfile
namespace Toml

/-- Read a value from the beginning of a text; what is left comes with it. -/
abbrev Reading (Value : Type) := List Char -> Option (Value × List Char)

/-! ## Blanks, comments and line ends -/

/-- Write a line end of two characters as a line feed. -/
def joinLineEnds : List Char -> List Char
  | [] => []
  | '\r' :: '\n' :: rest => '\n' :: joinLineEnds rest
  | character :: rest => character :: joinLineEnds rest

/-- Whether a character separates the parts of a line. -/
def isBlank (character : Char) : Bool :=
  character = ' ' || character = '\t'

/-- Whether a character may stand in a comment or a text on one line. -/
def isPlain (character : Char) : Bool :=
  character = '\t' || (' ' ≤ character && character ≠ '\x7f')

/-- Leave out blanks. -/
def skipBlanks (text : List Char) : List Char :=
  text.dropWhile isBlank

/-- Leave out blanks, line ends and comments. -/
def skipFiller (inComment : Bool) : List Char -> List Char
  | [] => []
  | '\n' :: rest => skipFiller false rest
  | character :: rest =>
      if inComment then
        if isPlain character then skipFiller true rest else character :: rest
      else if isBlank character then
        skipFiller false rest
      else if character = '#' then
        skipFiller true rest
      else
        character :: rest

/-- Leave out what may stand behind a statement, up to the end of its line. -/
def endLine (text : List Char) : Option (List Char) :=
  let behind :=
    match skipBlanks text with
    | '#' :: rest => rest.dropWhile isPlain
    | rest => rest
  match behind with
  | [] => some []
  | '\n' :: rest => some rest
  | _ => none

/-! ## Rows of items -/

/-- Read items as long as an item asks for another one. An item takes at least
one character. -/
def readRow
    {Value : Type}
    (item : Reading (Value × Bool))
    (text : List Char) : Option (List Value × List Char) :=
  match item text with
  | none => none
  | some ((value, false), rest) => some ([value], rest)
  | some ((value, true), rest) =>
      if rest.length < text.length then
        (readRow item rest).map fun row => (value :: row.1, row.2)
      else
        none
termination_by text.length

/-! ## Texts -/

/-- Value of a hexadecimal digit. -/
def hexValue? (character : Char) : Option Nat :=
  if character.isDigit then
    some (character.toNat - '0'.toNat)
  else if 'a' ≤ character ∧ character ≤ 'f' then
    some (character.toNat - 'a'.toNat + 10)
  else if 'A' ≤ character ∧ character ≤ 'F' then
    some (character.toNat - 'A'.toNat + 10)
  else
    none

/-- The character whose number is written in hexadecimal digits. -/
def charOfHex? (digits : List Char) : Option Char := do
  let values ← digits.mapM hexValue?
  let number := values.foldl (fun number value => 16 * number + value) 0
  if number.isValidChar then some (Char.ofNat number) else none

/-- The character that a letter stands for behind a backslash. -/
def unescape? : Char -> Option Char
  | 'b' => some '\x08'
  | 't' => some '\t'
  | 'n' => some '\n'
  | 'f' => some '\x0c'
  | 'r' => some '\r'
  | '"' => some '"'
  | '\\' => some '\\'
  | _ => none

/-- Read an escape sequence behind its backslash. -/
def readEscape : Reading Char
  | 'u' :: first :: second :: third :: fourth :: rest =>
      (charOfHex? [first, second, third, fourth]).map fun character => (character, rest)
  | 'U' :: first :: second :: third :: fourth :: fifth :: sixth :: seventh :: eighth :: rest =>
      (charOfHex? [first, second, third, fourth, fifth, sixth, seventh, eighth]).map
        fun character => (character, rest)
  | letter :: rest => (unescape? letter).map fun character => (character, rest)
  | [] => none

/-- An escape sequence takes at least one character. -/
theorem length_of_readEscape
    {text rest : List Char}
    {character : Char}
    (found : readEscape text = some (character, rest)) :
    rest.length < text.length := by
  unfold readEscape at found
  split at found
  all_goals
    simp only [Option.map_eq_some_iff, Prod.mk.injEq, reduceCtorEq] at found
  all_goals
    obtain ⟨_, _, _, rfl⟩ := found
    simp only [List.length_cons]
    omega

/-- Read a text on one line behind its opening double quote. -/
def readEscaped
    (reversed : List Char)
    (text : List Char) : Option (String × List Char) :=
  match text with
  | [] => none
  | '"' :: rest => some (String.ofList reversed.reverse, rest)
  | '\\' :: rest =>
      match _ : readEscape rest with
      | none => none
      | some (character, behind) => readEscaped (character :: reversed) behind
  | character :: rest =>
      if isPlain character then readEscaped (character :: reversed) rest else none
termination_by text.length
decreasing_by
  · exact Nat.lt_succ_of_lt (length_of_readEscape (by assumption))
  · exact Nat.lt_succ_self _

/-- Read a text on one line behind its opening single quote. -/
def readVerbatim (text : List Char) : Option (String × List Char) :=
  match text.dropWhile (fun character => isPlain character && character ≠ '\'') with
  | '\'' :: rest =>
      some
        ( String.ofList (text.takeWhile fun character => isPlain character && character ≠ '\'')
        , rest )
  | _ => none

/-- Quotes that still belong to a text although three have closed it: of a row
of quotes the last three close the text, and at most two stand before them. -/
def trailingQuotes
    (quote : Char)
    (rest : List Char) : List Char :=
  (rest.take 2).takeWhile fun character => character = quote

/-- The text that three quotes close. -/
def closeLong
    (quote : Char)
    (reversed rest : List Char) : String × List Char :=
  let extra := trailingQuotes quote rest
  (String.ofList (reversed.reverse ++ extra), rest.drop extra.length)

/-- Leave out a line end right behind opening quotes. -/
def skipFirstLineEnd : List Char -> List Char
  | '\n' :: rest => rest
  | text => text

/-- What is left of the next line if a backslash joins it to this one. -/
def joinedLine? (text : List Char) : Option (List Char) :=
  match skipBlanks text with
  | '\n' :: rest => some (rest.dropWhile fun character => isBlank character || character = '\n')
  | _ => none

/-- Leaving out characters does not make a text longer. -/
theorem length_dropWhile_le
    (test : Char -> Bool)
    (text : List Char) :
    (text.dropWhile test).length ≤ text.length :=
  (List.dropWhile_sublist test).length_le

/-- Joining lines takes at least the line end. -/
theorem length_of_joinedLine
    {text rest : List Char}
    (found : joinedLine? text = some rest) :
    rest.length < text.length := by
  unfold joinedLine? at found
  split at found
  · rename_i behind blanks
    simp only [Option.some.injEq] at found
    have shorter := length_dropWhile_le isBlank text
    have shortest :=
      length_dropWhile_le (fun character => isBlank character || character = '\n') behind
    simp only [skipBlanks] at blanks
    rw [blanks, List.length_cons] at shorter
    rw [found] at shortest
    omega
  · simp at found

/-- Read a text of several lines behind its opening double quotes. -/
def readLongEscaped
    (reversed : List Char)
    (text : List Char) : Option (String × List Char) :=
  match text with
  | [] => none
  | '"' :: '"' :: '"' :: rest => some (closeLong '"' reversed rest)
  | '\\' :: rest =>
      match _ : joinedLine? rest with
      | some behind => readLongEscaped reversed behind
      | none =>
          match _ : readEscape rest with
          | none => none
          | some (character, behind) => readLongEscaped (character :: reversed) behind
  | character :: rest =>
      if isPlain character || character = '\n' then
        readLongEscaped (character :: reversed) rest
      else
        none
termination_by text.length
decreasing_by
  · exact Nat.lt_succ_of_lt (length_of_joinedLine (by assumption))
  · exact Nat.lt_succ_of_lt (length_of_readEscape (by assumption))
  · exact Nat.lt_succ_self _

/-- Read a text of several lines behind its opening single quotes. -/
def readLongVerbatim
    (reversed : List Char) : List Char -> Option (String × List Char)
  | [] => none
  | '\'' :: '\'' :: '\'' :: rest => some (closeLong '\'' reversed rest)
  | character :: rest =>
      if isPlain character || character = '\n' then
        readLongVerbatim (character :: reversed) rest
      else
        none

/-- Read a text of any kind. -/
def readText : Reading String
  | '"' :: '"' :: '"' :: rest => readLongEscaped [] (skipFirstLineEnd rest)
  | '\'' :: '\'' :: '\'' :: rest => readLongVerbatim [] (skipFirstLineEnd rest)
  | '"' :: rest => readEscaped [] rest
  | '\'' :: rest => readVerbatim rest
  | _ => none

/-! ## Names -/

/-- Whether a character may stand in a name without quotes. -/
def isNameChar (character : Char) : Bool :=
  character.isAlphanum || character = '-' || character = '_'

/-- Read one part of a name. -/
def readNamePart : Reading String
  | '"' :: rest => readEscaped [] rest
  | '\'' :: rest => readVerbatim rest
  | text =>
      match text.takeWhile isNameChar with
      | [] => none
      | word => some (String.ofList word, text.dropWhile isNameChar)

/-- Bound on the parts of a name and on the depth of a value. -/
def depthLimit : Nat := 80

/-- Read a name of one or more parts. -/
def readName (text : List Char) : Option (List String × List Char) := do
  let part : Reading (String × Bool) := fun text => do
    let (part, rest) ← readNamePart (skipBlanks text)
    match skipBlanks rest with
    | '.' :: behind => some ((part, true), behind)
    | behind => some ((part, false), behind)
  let (parts, rest) ← readRow part text
  if parts.length < depthLimit then some (parts, rest) else none

end Toml
end FlameProfile
