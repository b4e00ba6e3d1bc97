/-!
# Symbols of a file

The content of a file is a row of bytes, most of which belong to characters in
the encoding of eight-bit units. A byte that belongs to no character stands as
a symbol of its own, so that a text around it can still be read.
-/

namespace FlameProfile
namespace Text

/-- The characters in a row of bytes from a place on, with `none` for each byte
that belongs to no character. -/
def symbolsFrom
    (bytes : ByteArray)
    (place : Nat) : List (Option Char) :=
  if place < bytes.size then
    match bytes.utf8DecodeChar? place with
    | some character => some character :: symbolsFrom bytes (place + character.utf8Size)
    | none => none :: symbolsFrom bytes (place + 1)
  else
    []
termination_by bytes.size - place
decreasing_by
  · have := character.utf8Size_pos
    omega
  · omega

/-- The characters in a row of bytes. -/
def symbols (bytes : ByteArray) : List (Option Char) :=
  symbolsFrom bytes 0

end Text
end FlameProfile
