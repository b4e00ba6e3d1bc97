import FlameProfile.Text.Printable

/-!
# Quoted texts

A quoted text stands between double quotes. A quote, a backslash, the usual
control characters and everything that is not printable are written as an
escape sequence, the last kind by the code point in hexadecimal digits.
-/

namespace FlameProfile
namespace Text

/-- One character inside a quoted text. -/
def quoteChar (character : Char) : List Char :=
  match character with
  | '"' => ['\\', '"']
  | '\\' => ['\\', '\\']
  | '\n' => ['\\', 'n']
  | '\r' => ['\\', 'r']
  | '\t' => ['\\', 't']
  | '\x00' => ['\\', '0']
  | _ =>
      if isPrintable character then
        [character]
      else
        '\\' :: 'u' :: '\x7b' :: Nat.toDigits 16 character.toNat ++ ['\x7d']

/-- A text between double quotes. -/
def quote (text : String) : String :=
  String.ofList ('"' :: text.toList.flatMap quoteChar ++ ['"'])

/-- A list of quoted texts between brackets. -/
def quoteAll (texts : List String) : String :=
  "[" ++ String.intercalate ", " (texts.map quote) ++ "]"

end Text
end FlameProfile
