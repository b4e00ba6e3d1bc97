import FlameProfile.HotPath
import FlameProfile.Text.Column
import FlameProfile.Text.Ink

/-!
# Table of hot paths

The hot paths are shown in a table for the terminal. Of a path that is too long
for its column the end is kept, where the innermost frames are.
-/

namespace FlameProfile
namespace HotPath

/-- A horizontal rule of some length. -/
def rule (length : Nat) : String :=
  Text.repeated length "━"

/-- Keep the end of a text that is longer than a width. -/
def keepEnd
    (width : Nat)
    (text : String) : String :=
  if width < text.length then
    "..." ++ String.ofList (text.toList.drop (text.length - (width - 3)))
  else
    text

variable {Weight : Type} [NumberText Weight]

/-- The row of a hot path. -/
def row
    (coloured : Bool)
    (unit : String)
    (path : HotPath Weight) : String :=
  let ink : Text.Ink := if path.failed then .red else .cyan
  let frames := Text.padRight 48 (keepEnd 48 path.write)
  "  " ++ ink.paint coloured frames ++ " " ++
    Text.padLeft 12 (NumberText.fixed 6 path.weight) ++ Text.padRight 2 unit ++ " " ++
    Text.padLeft 6 (NumberText.fixed 1 path.percentage) ++ "% " ++
    Text.padLeft 6 (toString path.calls)

/-- The table of hot paths, with a limited number of rows. -/
def table
    (coloured : Bool)
    (limit : Nat)
    (unit : String)
    (paths : List (HotPath Weight)) : String :=
  let line := "  " ++ rule 78
  let heading :=
    "  " ++ Text.padRight 48 "Call Path (Hottest First)" ++ " " ++ Text.padLeft 14 "TIME" ++
      " " ++ Text.padLeft 7 "%" ++ " " ++ Text.padLeft 6 "CALLS"
  let more :=
    if limit < paths.length then
      [s!"   (Showing top {limit} of {paths.length} paths)"]
    else
      []
  String.intercalate "\n"
    (["  " ++ Text.Ink.bold.paint coloured "HOT PATHS (exclusive time)", line, heading, line] ++
      (paths.take limit).map (row coloured unit) ++ [line] ++ more)

end HotPath
end FlameProfile
