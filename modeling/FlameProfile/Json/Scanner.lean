import FlameProfile.Decimal.Numeral
import FlameProfile.Decimal.Shortest
import FlameProfile.Json.Value

/-!
# Texts, numbers and words of documents

The parts of a document that hold no other part are scanned from the symbols at
their beginning. A scan yields a value and the symbols behind it, or stops at a
place that no such part can have.

A number is taken from its first digits, as far as they fit into sixty-four
bits, and scaled once by a power of ten. A number too great for that, and a text
with an impossible escape sequence or a byte that is no character, is delimited
all the same.
-/

namespace FlameProfile
namespace Json

/-- The symbols of a document; a byte that is no character is `none`. -/
abbrev Symbols := List (Option Char)

/-- What a scan found. -/
inductive Scan (Value : Type)
  | found (value : Value) (rest : Symbols)
  | stopped (damage : Damage)

/-! ## Words -/

/-- Scan the rest of a word that stands for a value. -/
def scanWord
    (value : Json) : List Char -> Symbols -> Scan Json
  | [], rest => .found value rest
  | _ :: _, [] => .stopped (Damage.stop .ended true)
  | expected :: word, symbol :: rest =>
      if symbol = some expected then
        scanWord value word rest
      else
        .stopped (Damage.stop .malformed true)

/-! ## Texts -/

/-- Value of a hexadecimal digit. -/
def hexDigit? (character : Char) : Option Nat :=
  if character.isDigit then
    some (character.toNat - '0'.toNat)
  else if 'a' ≤ character ∧ character ≤ 'f' then
    some (character.toNat - 'a'.toNat + 10)
  else if 'A' ≤ character ∧ character ≤ 'F' then
    some (character.toNat - 'A'.toNat + 10)
  else
    none

/-- Scan hexadecimal digits onto a value. -/
def scanHex : Nat -> Nat -> Symbols -> Scan Nat
  | 0, value, rest => .found value rest
  | _ + 1, _, [] => .stopped (Damage.stop .ended true)
  | more + 1, value, symbol :: rest =>
      match symbol.bind hexDigit? with
      | some digit => scanHex more (16 * value + digit) rest
      | none => .stopped (Damage.stop .malformed true)

/-- The character that a letter stands for behind a backslash. -/
def unescape? : Char -> Option Char
  | '"' => some '"'
  | '\\' => some '\\'
  | '/' => some '/'
  | 'b' => some '\x08'
  | 'f' => some '\x0c'
  | 'n' => some '\n'
  | 'r' => some '\r'
  | 't' => some '\t'
  | _ => none

/-- Whether a number is the first half of a pair. -/
def isLeading (unit : Nat) : Bool :=
  0xD800 ≤ unit && unit ≤ 0xDBFF

/-- Whether a number is the second half of a pair. -/
def isTrailing (unit : Nat) : Bool :=
  0xDC00 ≤ unit && unit ≤ 0xDFFF

/-- The character of a pair of halves. -/
def pairedChar (leading trailing : Nat) : Char :=
  Char.ofNat (0x10000 + (leading - 0xD800) * 0x400 + (trailing - 0xDC00))

/-- One piece of a text: a character of it, an escape sequence for none, a byte
that is no character, or the end of the text. -/
inductive Piece
  | char (character : Char)
  | lone
  | stray
  | close

/-- Scan what follows a first half of a pair. For a reader who passes over the
text, each escape sequence stands for itself. -/
def scanSecondHalf
    (leading : Nat)
    (rest : Symbols) : Scan Piece :=
  match rest with
  | [] => .stopped (Damage.stop .ended true)
  | some '\\' :: [] => .stopped (Damage.stop .ended true)
  | some '\\' :: some 'u' :: behind =>
      match scanHex 4 0 behind with
      | .stopped damage => .stopped damage
      | .found trailing behind =>
          if isTrailing trailing then
            .found (.char (pairedChar leading trailing)) behind
          else
            .found .lone behind
  | _ => .found .lone rest

/-- Scan the escape sequence behind a backslash. -/
def scanEscape : Symbols -> Scan Piece
  | [] => .stopped (Damage.stop .ended true)
  | some 'u' :: rest =>
      match scanHex 4 0 rest with
      | .stopped damage => .stopped damage
      | .found unit rest =>
          if isLeading unit then
            scanSecondHalf unit rest
          else if isTrailing unit then
            .found .lone rest
          else
            .found (.char (Char.ofNat unit)) rest
  | symbol :: rest =>
      match symbol.bind unescape? with
      | some character => .found (.char character) rest
      | none => .stopped (Damage.stop .malformed true)

/-- Scan one piece of a text. -/
def scanPiece : Symbols -> Scan Piece
  | [] => .stopped (Damage.stop .ended true)
  | some '"' :: rest => .found .close rest
  | some '\\' :: rest => scanEscape rest
  | none :: rest => .found .stray rest
  | some character :: rest =>
      if character.toNat < 0x20 then
        .stopped (Damage.stop .malformed true)
      else
        .found (.char character) rest

theorem length_of_scanHex
    {count value number : Nat}
    {symbols rest : Symbols}
    (found : scanHex count value symbols = .found number rest) :
    rest.length ≤ symbols.length := by
  induction count generalizing value symbols with
  | zero =>
      simp only [scanHex, Scan.found.injEq] at found
      simp [found.2]
  | succ count induction =>
      cases symbols with
      | nil => simp [scanHex] at found
      | cons symbol behind =>
          simp only [scanHex] at found
          split at found
          · have := induction found
            simp only [List.length_cons]
            omega
          · simp at found

theorem length_of_scanSecondHalf
    {leading : Nat}
    {symbols rest : Symbols}
    {piece : Piece}
    (found : scanSecondHalf leading symbols = .found piece rest) :
    rest.length ≤ symbols.length := by
  unfold scanSecondHalf at found
  split at found
  · simp at found
  · simp at found
  · split at found
    · simp at found
    · rename_i _ behind _ _ _ scanned
      have shorter := length_of_scanHex scanned
      split at found <;>
        · simp only [Scan.found.injEq] at found
          obtain ⟨_, rfl⟩ := found
          simp only [List.length_cons]
          omega
  · simp only [Scan.found.injEq] at found
    simp [found.2]

theorem length_of_scanEscape
    {symbols rest : Symbols}
    {piece : Piece}
    (found : scanEscape symbols = .found piece rest) :
    rest.length ≤ symbols.length := by
  unfold scanEscape at found
  split at found
  · simp at found
  · split at found
    · simp at found
    · rename_i scanned
      have shorter := length_of_scanHex scanned
      split at found
      · have := length_of_scanSecondHalf found
        simp only [List.length_cons]
        omega
      · split at found <;>
          · simp only [Scan.found.injEq] at found
            obtain ⟨_, rfl⟩ := found
            simp only [List.length_cons]
            omega
  · split at found
    · simp only [Scan.found.injEq] at found
      obtain ⟨_, rfl⟩ := found
      simp
    · simp at found

/-- A piece of a text takes at least one symbol. -/
theorem length_of_scanPiece
    {symbols rest : Symbols}
    {piece : Piece}
    (found : scanPiece symbols = .found piece rest) :
    rest.length < symbols.length := by
  unfold scanPiece at found
  split at found
  · simp at found
  · simp only [Scan.found.injEq] at found
    simp [found.2]
  · have := length_of_scanEscape found
    simp only [List.length_cons]
    omega
  · simp only [Scan.found.injEq] at found
    simp [found.2]
  · split at found
    · simp at found
    · simp only [Scan.found.injEq] at found
      simp [found.2]

/-- What is wrong with the text scanned so far. -/
structure TextFaults where
  /-- An escape sequence stands for no character. -/
  lone : Bool
  /-- A byte belongs to no character. -/
  stray : Bool

/-- Value of a text that ends properly. Its faults count when it is used. -/
def closeText
    (faults : TextFaults)
    (reversed : List Char) : Json :=
  if faults.lone || faults.stray then
    .damaged (Damage.content .malformed)
  else
    .text (String.ofList reversed.reverse)

/-- Scan the pieces of a text behind its opening quote. An impossible escape
sequence is met before the place at which the scan stops, a stray byte only at
the end of the text. -/
def scanText
    (faults : TextFaults)
    (reversed : List Char)
    (symbols : Symbols) : Scan Json :=
  match _ : scanPiece symbols with
  | .stopped damage =>
      .stopped (if faults.lone then { damage with used := .malformed } else damage)
  | .found .close rest => .found (closeText faults reversed) rest
  | .found (.char character) rest => scanText faults (character :: reversed) rest
  | .found .lone rest => scanText { faults with lone := true } reversed rest
  | .found .stray rest => scanText { faults with stray := true } reversed rest
termination_by symbols.length
decreasing_by all_goals exact length_of_scanPiece (by assumption)

/-! ## Numbers -/

/-- The digits at the beginning, and the symbols behind them. -/
def takeDigits : Symbols -> List Char × Symbols
  | [] => ([], [])
  | symbol :: rest =>
      match symbol.filter Char.isDigit with
      | some digit => (digit :: (takeDigits rest).1, (takeDigits rest).2)
      | none => ([], symbol :: rest)

/-- The place at which digits are missing. A number that is passed over may not
end there either, but that shows as a number without sense. -/
def missingDigits (rest : Symbols) : Damage :=
  match rest with
  | [] => ⟨.ended, some .malformed, true⟩
  | _ => Damage.stop .malformed true

/-- Take digits onto a value as long as it fits into sixty-four bits, and count
the digits that are left over. -/
def takeSignificand : Nat -> List Char -> Nat × Nat
  | value, [] => (value, 0)
  | value, digit :: digits =>
      if 10 * value + (digit.toNat - '0'.toNat) < Numeral.wordLimit 64 then
        takeSignificand (10 * value + (digit.toNat - '0'.toNat)) digits
      else
        (value, digits.length + 1)

/-- A power of ten as a floating-point number. -/
def powerOfTen (exponent : Nat) : Float :=
  Float.ofScientific 1 false exponent

/-- Divide by a power of ten, in steps if it is out of range. -/
def scaleDown
    (value : Float)
    (exponent : Nat) : Float :=
  if exponent ≤ 308 then
    value / powerOfTen exponent
  else if value == 0.0 then
    value
  else
    scaleDown (value / powerOfTen 308) (exponent - 308)
termination_by exponent

/-- A significand times a power of ten, unless that is too great. -/
def scale
    (significand : Nat)
    (exponent : Int) : Option Float :=
  let value := Float.ofNat significand
  if exponent < 0 then
    some (scaleDown value exponent.natAbs)
  else if exponent ≤ 308 then
    let scaled := value * powerOfTen exponent.natAbs
    if scaled.isInf then none else some scaled
  else if significand = 0 then
    some value
  else
    none

/-- Value of a number with a fraction or an exponent, or of a whole number that
does not fit into sixty-four bits. -/
def fractional
    (negative : Bool)
    (whole places : List Char)
    (exponent : Int) : Json :=
  let (high, skipped) := takeSignificand 0 whole
  let (significand, unused) := takeSignificand high places
  match scale significand (skipped - (places.length - unused : Nat) + exponent) with
  | none => .damaged (Damage.content .malformed)
  | some value => .number (if negative then -value else value)

/-- Value of a whole number. Minus zero and sizes out of range are no whole
numbers. -/
def integral
    (negative : Bool)
    (whole : List Char) : Json :=
  let value := Nat.ofDigitChars 10 whole 0
  if Numeral.wordLimit 64 ≤ value then
    fractional negative whole [] 0
  else if negative then
    if value = 0 ∨ Numeral.wordLimit 63 < value then
      .number (-(Float.ofNat value))
    else
      .negative value
  else
    .natural value

/-- Whether a symbol marks an exponent. -/
def marksExponent (symbol : Option Char) : Bool :=
  symbol = some 'e' || symbol = some 'E'

/-- Scan the digits of an exponent. -/
def scanExponentDigits
    (negative : Bool)
    (whole places : List Char)
    (downward : Bool)
    (symbols : Symbols) : Scan Json :=
  match takeDigits symbols with
  | ([], rest) => .stopped (missingDigits rest)
  | (digits, rest) =>
      let size : Int := Nat.ofDigitChars 10 digits 0
      .found (fractional negative whole places (if downward then -size else size)) rest

/-- Scan what stands behind the digits of a number. -/
def scanExponent
    (negative : Bool)
    (whole places : List Char)
    (symbols : Symbols) : Scan Json :=
  match symbols with
  | mark :: rest =>
      if marksExponent mark then
        match rest with
        | some '-' :: digits => scanExponentDigits negative whole places true digits
        | some '+' :: digits => scanExponentDigits negative whole places false digits
        | digits => scanExponentDigits negative whole places false digits
      else if places = [] then
        .found (integral negative whole) symbols
      else
        .found (fractional negative whole places 0) symbols
  | [] =>
      if places = [] then
        .found (integral negative whole) []
      else
        .found (fractional negative whole places 0) []

/-- Scan a number behind its sign. No digit stands behind a leading zero. -/
def scanNumber
    (negative : Bool)
    (symbols : Symbols) : Scan Json :=
  match takeDigits symbols with
  | ([], rest) => .stopped (missingDigits rest)
  | ('0' :: _ :: _, _) => .stopped (Damage.stop .malformed true)
  | (whole, some '.' :: behind) =>
      match takeDigits behind with
      | ([], rest) => .stopped (missingDigits rest)
      | (places, rest) => scanExponent negative whole places rest
  | (whole, rest) => scanExponent negative whole [] rest

/-! ## Parts without parts -/

/-- Scan a value that holds no other value, from its first symbol on. -/
def scanScalar : Symbols -> Scan Json
  | some '"' :: rest => scanText ⟨false, false⟩ [] rest
  | some '-' :: rest => scanNumber true rest
  | some 't' :: rest => scanWord (.boolean true) "rue".toList rest
  | some 'f' :: rest => scanWord (.boolean false) "alse".toList rest
  | some 'n' :: rest => scanWord .null "ull".toList rest
  | symbols => scanNumber false symbols

theorem length_of_scanWord
    {value scanned : Json}
    {word : List Char}
    {symbols rest : Symbols}
    (found : scanWord value word symbols = .found scanned rest) :
    rest.length ≤ symbols.length := by
  induction word generalizing symbols with
  | nil =>
      simp only [scanWord, Scan.found.injEq] at found
      simp [found.2]
  | cons expected word induction =>
      cases symbols with
      | nil => simp [scanWord] at found
      | cons symbol behind =>
          simp only [scanWord] at found
          split at found
          · have := induction found
            simp only [List.length_cons]
            omega
          · simp at found

theorem length_of_scanText
    {faults : TextFaults}
    {reversed : List Char}
    {symbols rest : Symbols}
    {value : Json}
    (found : scanText faults reversed symbols = .found value rest) :
    rest.length < symbols.length := by
  fun_induction scanText faults reversed symbols with
  | case1 => simp at found
  | case2 _ _ _ _ scanned =>
      simp only [Scan.found.injEq] at found
      exact found.2 ▸ length_of_scanPiece scanned
  | case3 _ _ _ _ _ scanned induction =>
      exact Nat.lt_trans (induction found) (length_of_scanPiece scanned)
  | case4 _ _ _ _ scanned induction =>
      exact Nat.lt_trans (induction found) (length_of_scanPiece scanned)
  | case5 _ _ _ _ scanned induction =>
      exact Nat.lt_trans (induction found) (length_of_scanPiece scanned)

/-- The digits taken and the symbols behind them are all symbols there were. -/
theorem length_takeDigits (symbols : Symbols) :
    (takeDigits symbols).1.length + (takeDigits symbols).2.length = symbols.length := by
  induction symbols with
  | nil => rfl
  | cons symbol rest induction =>
      unfold takeDigits
      split
      · simp only [List.length_cons]
        omega
      · simp

theorem length_of_scanExponentDigits
    {negative downward : Bool}
    {whole places : List Char}
    {symbols rest : Symbols}
    {value : Json}
    (found : scanExponentDigits negative whole places downward symbols = .found value rest) :
    rest.length ≤ symbols.length := by
  have total := length_takeDigits symbols
  unfold scanExponentDigits at found
  split at found
  · simp at found
  next digits behind _ taken =>
    simp only [Scan.found.injEq] at found
    rw [taken, found.2] at total
    simp only at total
    omega

theorem length_of_scanExponent
    {negative : Bool}
    {whole places : List Char}
    {symbols rest : Symbols}
    {value : Json}
    (found : scanExponent negative whole places symbols = .found value rest) :
    rest.length ≤ symbols.length := by
  unfold scanExponent at found
  split at found
  · split at found
    · split at found <;>
        · have := length_of_scanExponentDigits found
          simp only [List.length_cons] at this ⊢
          omega
    · split at found <;>
        · simp only [Scan.found.injEq] at found
          simp [found.2]
  · split at found <;>
      · simp only [Scan.found.injEq] at found
        simp [found.2]

theorem length_of_scanNumber
    {negative : Bool}
    {symbols rest : Symbols}
    {value : Json}
    (found : scanNumber negative symbols = .found value rest) :
    rest.length < symbols.length := by
  have total := length_takeDigits symbols
  unfold scanNumber at found
  split at found
  · simp at found
  · simp at found
  next whole behind someDigit _ taken =>
    have nonempty : 0 < whole.length :=
      List.length_pos_iff.mpr fun none => someDigit none
    rw [taken] at total
    simp only [List.length_cons] at total
    have places := length_takeDigits behind
    split at found
    · simp at found
    next after _ takenPlaces =>
      rw [takenPlaces] at places
      have := length_of_scanExponent found
      simp only at places
      omega
  next whole behind someDigit _ _ taken =>
    have nonempty : 0 < whole.length :=
      List.length_pos_iff.mpr fun none => someDigit none
    rw [taken] at total
    have := length_of_scanExponent found
    simp only at total
    omega

/-- A value takes at least one symbol. -/
theorem length_of_scanScalar
    {symbols rest : Symbols}
    {value : Json}
    (found : scanScalar symbols = .found value rest) :
    rest.length < symbols.length := by
  unfold scanScalar at found
  split at found
  · have := length_of_scanText found
    simp only [List.length_cons]
    omega
  · have := length_of_scanNumber found
    simp only [List.length_cons]
    omega
  · have := length_of_scanWord found
    simp only [List.length_cons]
    omega
  · have := length_of_scanWord found
    simp only [List.length_cons]
    omega
  · have := length_of_scanWord found
    simp only [List.length_cons]
    omega
  · exact length_of_scanNumber found

end Json
end FlameProfile
