import FlameProfile.Comparison
import FlameProfile.Json.Writer
import FlameProfile.Profile
import FlameProfile.Report.HotPathTable
import FlameProfile.Tree.Merge

/-!
# Difference of two profiles

Two profiles are compared by their trees, which are built apart from each
other. The report has the totals and every frame below the root. It can be
shown as a table for the terminal and written as a document.
-/

namespace FlameProfile

/-- Totals and frames of two profiles, the greatest changes first. -/
structure DifferenceReport (Weight : Type) where
  unit : String
  baselineTotal : Weight
  targetTotal : Weight
  frames : List (Comparison Weight)
  deriving DecidableEq

/-- Which of the two profiles cannot be merged. -/
inductive DifferenceFault
  | baseline (fault : UnsortedPath)
  | target (fault : UnsortedPath)
  deriving DecidableEq

namespace DifferenceReport

variable {Weight : Type} [Arithmetic Weight]

/-- Compare two profiles. -/
def ofProfiles
    (baseline target : Profile Weight) : Except DifferenceFault (DifferenceReport Weight) :=
  match Tree.ofStacks (Stack.ofResources baseline.resources),
      Tree.ofStacks (Stack.ofResources target.resources) with
  | .error fault, _ => .error (.baseline fault)
  | .ok _, .error fault => .error (.target fault)
  | .ok before, .ok after =>
      .ok
        { unit := target.unit
          baselineTotal := before.total
          targetTotal := after.total
          frames := (Comparison.ofTrees before after).filter fun frame => 0 < frame.depth }

/-- Change of the total. -/
def delta (report : DifferenceReport Weight) : Weight :=
  report.targetTotal - report.baselineTotal

/-- Change of the total in hundredths of the baseline. -/
def percent? (report : DifferenceReport Weight) : Option Weight :=
  Comparison.percentOf report.baselineTotal report.delta

/-! ## Terminal table -/

/-- Show a text in the colour of a change. -/
def paintChange
    (coloured : Bool)
    (delta : Weight)
    (text : String) : String :=
  if 0 < delta then Text.Ink.red.paint coloured text
  else if delta < 0 then Text.Ink.green.paint coloured text
  else text

/-- Keep the beginning of a text that is longer than a width. -/
def keepBeginning
    (width : Nat)
    (text : String) : String :=
  if width < text.length then
    String.ofList (text.toList.take (width - 3)) ++ "..."
  else
    text

variable [NumberText Weight]

/-- The row of a frame. -/
def row
    (coloured : Bool)
    (frame : Comparison Weight) : String :=
  let change :=
    match frame.percent? with
    | some percent => NumberText.signed 1 percent ++ "%"
    | none => "NEW"
  "  " ++ Text.padRight 40 (keepBeginning 40 frame.label) ++ " " ++
    Text.padLeft 5 (toString frame.depth) ++ " " ++
    Text.padLeft 14 (NumberText.fixed 6 frame.baseline) ++ " " ++
    Text.padLeft 14 (NumberText.fixed 6 frame.target) ++ " " ++
    paintChange coloured frame.delta (Text.padLeft 10 change)

/-- The line with the totals. -/
def totals
    (coloured : Bool)
    (report : DifferenceReport Weight) : String :=
  let measured := fun weight : Weight => NumberText.fixed 6 weight ++ " " ++ report.unit
  let share :=
    match report.percent? with
    | some percent => " (" ++ NumberText.signed 2 percent ++ "%)"
    | none => ""
  let change := NumberText.signed 6 report.delta ++ " " ++ report.unit ++ share
  "  Total time: " ++ measured report.baselineTotal ++ " -> " ++ measured report.targetTotal ++
    "  " ++ paintChange coloured report.delta change

/-- The table of a report, with a limited number of rows. -/
def table
    (coloured : Bool)
    (limit : Nat)
    (report : DifferenceReport Weight) : String :=
  let rule := HotPath.rule 80
  let heading :=
    "  " ++ Text.padRight 40 "Frame" ++ " " ++ Text.padLeft 5 "DEPTH" ++ " " ++
      Text.padLeft 14 "BASELINE" ++ " " ++ Text.padLeft 14 "TARGET" ++ " " ++
      Text.padLeft 10 "CHANGE"
  let more :=
    if limit < report.frames.length then
      [s!"   (Showing top {limit} of {report.frames.length} changed frames)"]
    else
      []
  String.intercalate "\n"
    ([rule, "  " ++ Text.Ink.bold.paint coloured "PROFILE DIFF", rule, report.totals coloured,
        "", heading] ++
      (report.frames.take limit).map (row coloured) ++ more ++ [rule])

/-! ## Document -/

/-- Document of a compared frame. -/
def frameToJson (frame : Comparison Float) : Json :=
  .record
    [ ("label", .text frame.label)
    , ("depth", .natural frame.depth)
    , ("baseline_width", .number frame.baseline)
    , ("target_width", .number frame.target) ]

/-- Document of a report. -/
def toJson (report : DifferenceReport Float) : Json :=
  .record
    [ ("unit", .text report.unit)
    , ("baseline_total", .number report.baselineTotal)
    , ("target_total", .number report.targetTotal)
    , ("frames", .array (report.frames.map frameToJson)) ]

/-- Text of a report. -/
def write (report : DifferenceReport Float) : String :=
  report.toJson.write

end DifferenceReport
end FlameProfile
