/-!
# Terminal styles

A styled text stands between the control sequence of its style and a reset
sequence. A reset inside the text would end the style early, so the style is
taken up again behind each of them. Without colours a text is left as it is.
-/

namespace FlameProfile
namespace Text

/-- The styles that the terminal reports use. -/
inductive Ink
  | bold
  | dimmed
  | red
  | green
  | yellow
  | cyan
  deriving DecidableEq

namespace Ink

/-- Control sequence that switches a style on. -/
def start : Ink -> List Char
  | .bold => "\x1b[1m".toList
  | .dimmed => "\x1b[2m".toList
  | .red => "\x1b[31m".toList
  | .green => "\x1b[32m".toList
  | .yellow => "\x1b[33m".toList
  | .cyan => "\x1b[36m".toList

/-- Control sequence that switches all styles off. -/
def reset : List Char :=
  "\x1b[0m".toList

/-- Take the style up again behind every reset inside a text. -/
def resume (ink : Ink) : List Char -> List Char
  | '\x1b' :: '[' :: '0' :: 'm' :: rest => reset ++ ink.start ++ resume ink rest
  | character :: rest => character :: resume ink rest
  | [] => []

/-- Write a text in a style, if the terminal shows colours. -/
def paint
    (coloured : Bool)
    (ink : Ink)
    (text : String) : String :=
  if coloured then
    String.ofList (ink.start ++ ink.resume text.toList ++ reset)
  else
    text

@[simp] theorem paint_plain
    (ink : Ink)
    (text : String) :
    ink.paint false text = text := rfl

end Ink
end Text
end FlameProfile
