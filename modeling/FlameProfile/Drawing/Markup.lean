/-!
# Texts in markup

The characters that markup is made of are written as entities, so that a text
inside an element stays text.
-/

namespace FlameProfile
namespace Markup

/-- One character of a text inside an element. -/
def escapeChar (character : Char) : List Char :=
  match character with
  | '&' => "&amp;".toList
  | '<' => "&lt;".toList
  | '>' => "&gt;".toList
  | '"' => "&quot;".toList
  | _ => [character]

/-- A text inside an element. -/
def escape (text : String) : String :=
  String.ofList (text.toList.flatMap escapeChar)

end Markup
end FlameProfile
