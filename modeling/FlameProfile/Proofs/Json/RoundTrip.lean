import Mathlib
import FlameProfile.Json.Decoder
import FlameProfile.Proofs.Json.Scanner
import FlameProfile.Proofs.Text.Symbols

/-!
# Reading what was written

A document without damage, whose whole numbers fit into sixty-four bits and whose other
numbers read back, is read as it was written. The reader keeps the open levels on a stack,
so the induction is over the document for any stack around it: the text of a value hands
the value to the innermost level and leaves what stands behind.
-/

namespace FlameProfile
namespace Json

mutual

/-- All that a document holds can be read back. -/
def Readable : Json -> Prop
  | .natural value => value < Numeral.wordLimit 64
  | .negative size => 0 < size ∧ size ≤ Numeral.wordLimit 63
  | .number value => ReadsBack value
  | .array items => ReadableItems items
  | .object members => ReadableMembers members
  | .damaged _ => False
  | _ => True

/-- All items of a row can be read back. -/
def ReadableItems : List Json -> Prop
  | [] => True
  | item :: items => Readable item ∧ ReadableItems items

/-- All members can be read back, and none has a damaged name. -/
def ReadableMembers : List (Except Damage String × Json) -> Prop
  | [] => True
  | (.ok _, value) :: members => Readable value ∧ ReadableMembers members
  | (.error _, _) :: _ => False

end

/-- A row is readable if all of its items are. -/
theorem readableItems_iff
    {items : List Json} :
    ReadableItems items ↔ ∀ item ∈ items, item.Readable := by
  induction items with
  | nil => simp [ReadableItems]
  | cons item items inductionHypothesis => simp [ReadableItems, inductionHypothesis]

/-- Hand a value to the innermost open level and read on behind it. -/
def deliver
    (levels : List Level)
    (value : Json)
    (rest : Symbols) : Json × Option Symbols :=
  match levels with
  | [] => (value, some rest)
  | level :: outer => readFrom (level.attach value :: outer) .next rest

/-- A value may come next. -/
def Expecting.TakesValue (expecting : Expecting) : Prop :=
  expecting = .value ∨ expecting = .item

/-! ## Single symbols -/

section Symbols

variable {levels : List Level} {expecting : Expecting} {symbol : Option Char} {rest : Symbols}

/-- Blanks between the parts of a document are skipped. -/
theorem readFrom_blank (blank : isBlank symbol = true) :
    readFrom levels expecting (symbol :: rest) = readFrom levels expecting rest := by
  rw [readFrom, if_pos blank]

/-- A new line is passed over. -/
theorem readFrom_newLine (level : Nat) :
    readFrom levels expecting ((newLine level).map some ++ rest) =
      readFrom levels expecting rest := by
  rw [newLine, List.map_cons, List.cons_append, readFrom_blank rfl]
  induction 2 * level with
  | zero => rfl
  | succ count inductionHypothesis =>
      rw [List.replicate_succ, List.map_cons, List.cons_append, readFrom_blank rfl,
        inductionHypothesis]

/-- Where a value may come, a bracket opens a row, with an item or its end to follow. -/
theorem readFrom_openArray (takes : expecting.TakesValue) :
    readFrom levels expecting (some '[' :: rest) = readFrom (.array [] :: levels) .item rest := by
  rcases takes with rfl | rfl <;> rw [readFrom] <;> simp [isBlank]

/-- Where a value may come, a brace opens members, with a name or their end to follow. -/
theorem readFrom_openObject (takes : expecting.TakesValue) :
    readFrom levels expecting (some '\x7b' :: rest) =
      readFrom (.object [] (.ok "") :: levels) .name rest := by
  rcases takes with rfl | rfl <;> rw [readFrom] <;> simp [isBlank]

/-- A bracket where the first item may come hands over an empty row. -/
theorem readFrom_closeEmptyArray (items : List Json) :
    readFrom (.array items :: levels) .item (some ']' :: rest) =
      deliver levels (.array []) rest := by
  rw [readFrom]
  cases levels <;> simp [isBlank, deliver]

/-- A bracket behind an item hands over the row, whose items were gathered from its end. -/
theorem readFrom_closeArray (items : List Json) :
    readFrom (.array items :: levels) .next (some ']' :: rest) =
      deliver levels (.array items.reverse) rest := by
  rw [readFrom]
  cases levels <;> simp [isBlank, deliver]

/-- A brace where the first name may come hands over no members. -/
theorem readFrom_closeEmptyObject
    (members : List (Except Damage String × Json))
    (name : Except Damage String) :
    readFrom (.object members name :: levels) .name (some '\x7d' :: rest) =
      deliver levels (.object []) rest := by
  rw [readFrom]
  cases levels <;> simp [isBlank, deliver]

/-- A brace behind a member hands over the members, which were gathered from their end. -/
theorem readFrom_closeObject
    (members : List (Except Damage String × Json))
    (name : Except Damage String) :
    readFrom (.object members name :: levels) .next (some '\x7d' :: rest) =
      deliver levels (.object members.reverse) rest := by
  rw [readFrom]
  cases levels <;> simp [isBlank, deliver]

/-- Behind the comma of a row a value must come. -/
theorem readFrom_nextItem (items : List Json) :
    readFrom (.array items :: levels) .next (some ',' :: rest) =
      readFrom (.array items :: levels) .value rest := by
  rw [readFrom]
  simp [isBlank]

/-- Behind the comma of members another name must come. -/
theorem readFrom_nextMember
    (members : List (Except Damage String × Json))
    (name : Except Damage String) :
    readFrom (.object members name :: levels) .next (some ',' :: rest) =
      readFrom (.object members name :: levels) .nextName rest := by
  rw [readFrom]
  simp [isBlank]

theorem readFrom_colon :
    readFrom levels .colon (some ':' :: rest) = readFrom levels .value rest := by
  rw [readFrom]
  simp [isBlank]

/-- A quoted name is read as that name. -/
theorem readFrom_quote
    (isName : expecting = .name ∨ expecting = .nextName)
    (members : List (Except Damage String × Json))
    (name : Except Damage String)
    (text : String) :
    readFrom (.object members name :: levels) expecting ((quote text).map some ++ rest) =
      readFrom (.object members (.ok text) :: levels) .colon rest := by
  have quoted : (quote text).map some ++ rest =
      some '"' :: ((text.toList.flatMap escapeChar).map some ++ some '"' :: rest) := by
    simp [quote]
  have scanned := scanText_quoted text rest
  rw [quoted, readFrom]
  rcases isName with rfl | rfl
  all_goals
    simp only [isBlank]
    split
    next blank => simp at blank
    next => split <;> simp_all [nameOf]

/-! ## Values without parts -/

/-- Whether a value without parts may begin with a symbol. -/
def beginsScalar (symbol : Option Char) : Bool :=
  !isBlank symbol && symbol != some '[' && symbol != some ']' && symbol != some '\x7b'

/-- Where a value may come, a scanned value without parts is handed over. -/
theorem readFrom_scalar
    {value : Json}
    {behind : Symbols}
    (takes : expecting.TakesValue)
    (begins : beginsScalar symbol = true)
    (scanned : scanScalar (symbol :: rest) = .found value behind) :
    readFrom levels expecting (symbol :: rest) = deliver levels value behind := by
  simp only [beginsScalar, Bool.and_eq_true, Bool.not_eq_true', bne_iff_ne, ne_eq] at begins
  obtain ⟨⟨⟨notBlank, notArray⟩, notEnd⟩, notObject⟩ := begins
  rw [readFrom, if_neg (Bool.eq_false_iff.mp notBlank)]
  rcases takes with rfl | rfl
  all_goals
    split <;> first | contradiction | skip
    simp only
    split
    next stopped => simp [scanned] at stopped
    next found =>
      rw [scanned, Scan.found.injEq] at found
      obtain ⟨rfl, rfl⟩ := found
      rfl

end Symbols

/-- A text of one value without parts, which is scanned as the value in front of anything
that does not continue a number. -/
structure IsScalarText
    (text : List Char)
    (json : Json) : Prop where
  begins : ∃ first more, text = first :: more ∧ beginsScalar (some first) = true
  scanned : ∀ rest, EndsNumber rest → scanScalar (text.map some ++ rest) = .found json rest

/-- The text of a value without parts hands the value over, unless a number goes on behind it.
-/
theorem IsScalarText.readFrom
    {text : List Char}
    {json : Json}
    {expecting : Expecting}
    {rest : Symbols}
    (isScalar : IsScalarText text json)
    (takes : expecting.TakesValue)
    (ends : EndsNumber rest)
    (levels : List Level) :
    Json.readFrom levels expecting (text.map some ++ rest) = deliver levels json rest := by
  have scanned := isScalar.scanned rest ends
  obtain ⟨first, more, rfl, begins⟩ := isScalar.begins
  exact readFrom_scalar takes begins scanned

/-- A digit may begin a value without parts. -/
theorem beginsScalar_of_isDigit
    {character : Char}
    (isDigit : character.isDigit = true) :
    beginsScalar (some character) = true := by
  have differs : ∀ other : Char, other.isDigit = false → character ≠ other := by
    rintro other notDigit rfl
    exact absurd isDigit (Bool.eq_false_iff.mp notDigit)
  simp [beginsScalar, isBlank, differs ' ' rfl, differs '\n' rfl, differs '\t' rfl, differs '\r' rfl,
    differs '[' rfl, differs ']' rfl, differs '\x7b' rfl]

/-- A text that begins with a digit may be that of a value without parts. -/
theorem exists_begins_of_beginsWithDigit
    {text : List Char}
    (begins : Decimal.Format.BeginsWithDigit text) :
    ∃ first more, text = first :: more ∧ beginsScalar (some first) = true := by
  obtain ⟨first, isFirst, isDigit⟩ := begins
  obtain ⟨more, rfl⟩ := List.head?_eq_some_iff.mp isFirst
  exact ⟨first, more, rfl, beginsScalar_of_isDigit isDigit⟩

theorem isScalarText_null : IsScalarText "null".toList .null where
  begins := ⟨'n', _, rfl, by decide⟩
  scanned _ _ := rfl

theorem isScalarText_boolean (value : Bool) :
    IsScalarText (writeAt 0 (.boolean value)) (.boolean value) where
  begins := by
    cases value
    · exact ⟨'f', _, rfl, by decide⟩
    · exact ⟨'t', _, rfl, by decide⟩
  scanned _ _ := by cases value <;> rfl

/-- A whole number of sixty-four bits is written as its digits. -/
theorem isScalarText_natural
    {value : Nat}
    (fits : value < Numeral.wordLimit 64) :
    IsScalarText (Numeral.write value) (.natural value) where
  begins := exists_begins_of_beginsWithDigit (Decimal.Format.beginsWithDigit_toDigits value)
  scanned rest ends := by
    have alone := scanNumber_write false value
    rw [integral_write_natural fits] at alone
    exact (scanScalar_of_beginsWithDigit (Decimal.Format.beginsWithDigit_toDigits value) rest).trans
      (scanNumber_append ends alone)

/-- A negative whole number is written as its size behind a sign. -/
theorem isScalarText_negative
    {size : Nat}
    (positive : 0 < size)
    (fits : size ≤ Numeral.wordLimit 63) :
    IsScalarText ('-' :: Numeral.write size) (.negative size) where
  begins := ⟨'-', _, rfl, by decide⟩
  scanned rest ends := by
    have alone := scanNumber_write true size
    rw [integral_write_negative positive fits] at alone
    exact scanNumber_append ends alone

/-- A number that reads back is scanned as it was. -/
theorem isScalarText_number
    {value : Float}
    (back : ReadsBack value) :
    IsScalarText (numberFormat.write value).toList (.number value) where
  begins := by
    obtain ⟨digits, begins, same | same⟩ := writesNumber_of_isFinite back.isFinite
    all_goals rw [writeAt] at same
    · rw [same]
      exact exists_begins_of_beginsWithDigit begins
    · exact ⟨'-', digits, same, by decide⟩
  scanned _ ends := back.scanScalar_append ends

/-- Any text is scanned out of its quotes as it was. -/
theorem isScalarText_quote (text : String) :
    IsScalarText (quote text) (.text text) where
  begins := ⟨'"', _, rfl, by decide⟩
  scanned rest _ := by
    have quoted : (quote text).map some ++ rest =
        some '"' :: ((text.toList.flatMap escapeChar).map some ++ some '"' :: rest) := by
      simp [quote]
    rw [quoted, scanScalar, scanText_quoted]

/-! ## Whole documents -/

/-- What is written behind an item of a row continues no number. -/
theorem endsNumber_writeItems
    (level outer : Nat)
    (items : List Json)
    (rest : Symbols) :
    EndsNumber ((writeItems level items).map some ++ ((newLine outer).map some ++ rest)) := by
  cases items <;> simp [writeItems, newLine, continuesNumber, marksExponent, Char.isDigit]

/-- What is written behind the value of a member continues no number. -/
theorem endsNumber_writeMembers
    (level outer : Nat)
    (members : List (Except Damage String × Json))
    (rest : Symbols) :
    EndsNumber ((writeMembers level members).map some ++ ((newLine outer).map some ++ rest)) := by
  cases members <;> simp [writeMembers, newLine, continuesNumber, marksExponent, Char.isDigit]

mutual

/-- The text of a value hands the value to whatever levels are open around it. -/
theorem readFrom_writeAt
    (level : Nat)
    (levels : List Level)
    {expecting : Expecting}
    (takes : expecting.TakesValue)
    {rest : Symbols}
    (ends : EndsNumber rest) : (json : Json) → json.Readable →
    readFrom levels expecting ((json.writeAt level).map some ++ rest) = deliver levels json rest
  | .null, _ => isScalarText_null.readFrom takes ends levels
  | .boolean true, _ => (isScalarText_boolean true).readFrom takes ends levels
  | .boolean false, _ => (isScalarText_boolean false).readFrom takes ends levels
  | .natural _, fits => (isScalarText_natural fits).readFrom takes ends levels
  | .negative _, fits => (isScalarText_negative fits.1 fits.2).readFrom takes ends levels
  | .number _, back => (isScalarText_number back).readFrom takes ends levels
  | .text content, _ => (isScalarText_quote content).readFrom takes ends levels
  | .array [], _ => by
      rw [writeAt]
      exact (readFrom_openArray takes).trans (readFrom_closeEmptyArray [])
  | .array (item :: items), readable => by
      obtain ⟨itemReadable, itemsReadable⟩ := readable
      have stops := endsNumber_writeItems (level + 1) level items (some ']' :: rest)
      simp only [writeAt, List.map_append, List.map_cons, List.map_nil, List.append_assoc,
        List.cons_append, List.nil_append]
      rw [readFrom_openArray takes, readFrom_newLine,
        readFrom_writeAt (level + 1) _ (.inr rfl) stops item itemReadable]
      exact readFrom_writeItems (level + 1) level levels rest [item] items itemsReadable
  | .object [], _ => by
      rw [writeAt]
      exact (readFrom_openObject takes).trans (readFrom_closeEmptyObject [] _)
  | .object ((.ok name, value) :: members), readable => by
      obtain ⟨valueReadable, membersReadable⟩ := readable
      have stops := endsNumber_writeMembers (level + 1) level members (some '\x7d' :: rest)
      simp only [writeAt, List.map_append, List.map_cons, List.map_nil, List.append_assoc,
        List.cons_append, List.nil_append]
      rw [readFrom_openObject takes, readFrom_newLine, readFrom_quote (.inl rfl), readFrom_colon,
        readFrom_blank rfl, readFrom_writeAt (level + 1) _ (.inl rfl) stops value valueReadable]
      exact readFrom_writeMembers (level + 1) level levels rest (.ok name) [(.ok name, value)]
        members membersReadable

/-- The items behind the first one are added to the open row, which is then closed. -/
theorem readFrom_writeItems
    (level outer : Nat)
    (levels : List Level)
    (rest : Symbols)
    (done : List Json) : (items : List Json) → ReadableItems items →
    readFrom (.array done :: levels) .next
        ((writeItems level items).map some ++ ((newLine outer).map some ++ some ']' :: rest)) =
      deliver levels (.array (done.reverse ++ items)) rest
  | [], _ => by
      rw [writeItems, List.map_nil, List.nil_append, readFrom_newLine, readFrom_closeArray,
        List.append_nil]
  | item :: items, readable => by
      obtain ⟨itemReadable, itemsReadable⟩ := readable
      have stops := endsNumber_writeItems level outer items (some ']' :: rest)
      simp only [writeItems, List.map_append, List.map_cons, List.append_assoc, List.cons_append]
      rw [readFrom_nextItem, readFrom_newLine,
        readFrom_writeAt level _ (.inl rfl) stops item itemReadable]
      have others := readFrom_writeItems level outer levels rest (item :: done) items itemsReadable
      rwa [List.reverse_cons, List.append_assoc, List.singleton_append] at others

/-- The members behind the first one are added to the open record, which is then closed. -/
theorem readFrom_writeMembers
    (level outer : Nat)
    (levels : List Level)
    (rest : Symbols)
    (name : Except Damage String)
    (done : List (Except Damage String × Json)) :
    (members : List (Except Damage String × Json)) → ReadableMembers members →
    readFrom (.object done name :: levels) .next
        ((writeMembers level members).map some ++
          ((newLine outer).map some ++ some '\x7d' :: rest)) =
      deliver levels (.object (done.reverse ++ members)) rest
  | [], _ => by
      rw [writeMembers, List.map_nil, List.nil_append, readFrom_newLine, readFrom_closeObject,
        List.append_nil]
  | (.ok next, value) :: members, readable => by
      obtain ⟨valueReadable, membersReadable⟩ := readable
      have stops := endsNumber_writeMembers level outer members (some '\x7d' :: rest)
      simp only [writeMembers, List.map_append, List.map_cons, List.append_assoc,
        List.cons_append, List.nil_append]
      rw [readFrom_nextMember, readFrom_newLine, readFrom_quote (.inr rfl), readFrom_colon,
        readFrom_blank rfl, readFrom_writeAt level _ (.inl rfl) stops value valueReadable]
      have others := readFrom_writeMembers level outer levels rest (.ok next)
        ((.ok next, value) :: done) members membersReadable
      rwa [List.reverse_cons, List.append_assoc, List.singleton_append] at others

end

/-- A readable document is read as it was written. -/
theorem read_writtenText
    {json : Json}
    (readable : json.Readable) :
    read (Text.symbols json.write.toUTF8) = (json, some []) := by
  have whole := readFrom_writeAt 0 [] (.inl rfl) endsNumber_nil json readable
  rwa [List.append_nil, ← String.toList_ofList (l := json.writeAt 0), ← Text.symbols_toUTF8] at whole

/-- What a readable document is taken for is what its text is decoded as. -/
theorem decode_write
    {Value : Type}
    {take : Json -> Except Fault Value}
    {json : Json}
    {value : Value}
    (readable : json.Readable)
    (taken : take json = .ok value) :
    decode take (Text.symbols json.write.toUTF8) = .ok value := by
  rw [decode, read_writtenText readable]
  simp only [taken]
  rfl

end Json
end FlameProfile
