/-!
# Columns of a table

A text is brought to a least width by spaces on one side. Width counts
characters; a text that is already wide enough is left as it is.
-/

namespace FlameProfile
namespace Text

/-- Fill up with spaces on the right. -/
def padRight
    (width : Nat)
    (text : String) : String :=
  text ++ String.ofList (List.replicate (width - text.length) ' ')

/-- Fill up with spaces on the left. -/
def padLeft
    (width : Nat)
    (text : String) : String :=
  String.ofList (List.replicate (width - text.length) ' ') ++ text

/-- The same text a number of times over. -/
def repeated
    (count : Nat)
    (text : String) : String :=
  String.join (List.replicate count text)

end Text
end FlameProfile
