/-!
# Blank characters

The blank characters are the twenty-five characters with the Unicode property
of white space. Trimming removes them from both ends of a text.
-/

namespace FlameProfile
namespace Text

/-- Closed ranges of the blank code points, ascending. -/
def blankRanges : List (Nat × Nat) :=
  [(0x09, 0x0D), (0x20, 0x20), (0x85, 0x85), (0xA0, 0xA0), (0x1680, 0x1680),
    (0x2000, 0x200A), (0x2028, 0x2029), (0x202F, 0x202F), (0x205F, 0x205F),
    (0x3000, 0x3000)]

/-- Whether a character is white space. -/
def isBlank (character : Char) : Bool :=
  blankRanges.any fun range =>
    range.1 ≤ character.toNat && character.toNat ≤ range.2

/-- Remove characters of a class from the end of a text. -/
def trimEnd
    (drops : Char -> Bool)
    (text : List Char) : List Char :=
  (text.reverse.dropWhile drops).reverse

/-- Remove the blank characters at both ends of a text. -/
def trim (text : List Char) : List Char :=
  trimEnd isBlank (text.dropWhile isBlank)

@[simp] theorem trim_nil : trim [] = [] := rfl

end Text
end FlameProfile
