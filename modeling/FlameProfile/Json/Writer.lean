import FlameProfile.Decimal.Numeral
import FlameProfile.Json.Value

/-!
# Writing documents

A document is written over several lines, with two spaces of indentation for
each level. Rows and records without content are written as a pair of brackets.
-/

namespace FlameProfile
namespace Json

/-- One character of a written text. -/
def escapeChar (character : Char) : List Char :=
  match character with
  | '"' => ['\\', '"']
  | '\\' => ['\\', '\\']
  | '\x08' => ['\\', 'b']
  | '\x0c' => ['\\', 'f']
  | '\n' => ['\\', 'n']
  | '\r' => ['\\', 'r']
  | '\t' => ['\\', 't']
  | _ =>
      if character.toNat < 0x20 then
        ['\\', 'u', '0', '0', Nat.digitChar (character.toNat / 16),
          Nat.digitChar (character.toNat % 16)]
      else
        [character]

/-- A written text. -/
def quote (text : String) : List Char :=
  '"' :: text.toList.flatMap escapeChar ++ ['"']

/-- Begin a line at a level of indentation. -/
def newLine (level : Nat) : List Char :=
  '\n' :: List.replicate (2 * level) ' '

mutual

/-- Write a value that stands at a level of indentation. -/
def writeAt (level : Nat) : Json -> List Char
  | .null => "null".toList
  | .boolean true => "true".toList
  | .boolean false => "false".toList
  | .natural value => Numeral.write value
  | .negative size => '-' :: Numeral.write size
  | .number value => (numberFormat.write value).toList
  | .text value => quote value
  | .array [] => ['[', ']']
  | .array (item :: items) =>
      '[' :: newLine (level + 1) ++ writeAt (level + 1) item ++ writeItems (level + 1) items ++
        newLine level ++ [']']
  | .object [] => ['\x7b', '\x7d']
  | .object ((name, value) :: members) =>
      '\x7b' :: newLine (level + 1) ++ quote (name.toOption.getD "") ++ [':', ' '] ++
        writeAt (level + 1) value ++ writeMembers (level + 1) members ++
        newLine level ++ ['\x7d']
  | .damaged _ => "null".toList

/-- Write the items behind the first one. -/
def writeItems (level : Nat) : List Json -> List Char
  | [] => []
  | item :: items =>
      ',' :: newLine level ++ writeAt level item ++ writeItems level items

/-- Write the members behind the first one. -/
def writeMembers (level : Nat) : List (Except Damage String × Json) -> List Char
  | [] => []
  | (name, value) :: members =>
      ',' :: newLine level ++ quote (name.toOption.getD "") ++ [':', ' '] ++
        writeAt level value ++ writeMembers level members

end

/-- Text of a document. -/
def write (json : Json) : String :=
  String.ofList (json.writeAt 0)

end Json
end FlameProfile
