import FlameProfile.Session.Rendering

/-!
# Contrast of two profiles

Two profiles are compared frame by frame. The report can be written as a
document and shown as a table, and the change can be drawn.
-/

namespace FlameProfile

/-- What a contrast is asked for. -/
structure Contrast where
  /-- Path of the profile before the change. -/
  baseline : String
  /-- Path of the profile after the change. -/
  target : String
  /-- Whether a table is shown. -/
  summary : Bool
  /-- Most rows in the table. -/
  limit : Nat
  /-- Path that the report is written to. -/
  report : Option String
  /-- Path that a picture is written to. -/
  picture : Option String
  options : Option (DrawingOptions Float)

namespace Contrast

/-- Compare two profiles. -/
def run (contrast : Contrast) : Task TaskFault (DifferenceReport Float) := do
  let baseline ← (Storage.readProfile contrast.baseline).failingWith .baselineRead
  let target ← (Storage.readProfile contrast.target).failingWith .targetRead
  let report ←
    (Task.ofResult (DifferenceReport.ofProfiles baseline target)).failingWith .difference
  if let some path := contrast.picture then
    let document ←
      (Task.ofResult
        (Picture.ofStackDifference (Rendering.optionsFor contrast.options target)
          (Stack.ofResources baseline.resources)
          (Stack.ofResources target.resources))).failingWith .differenceDraw
    (Storage.writePicture path document).failingWith .differencePictureWrite
  if let some path := contrast.report then
    (Storage.writeFile path report.write).failingWith .reportWrite
    Task.say ("📊 Diff report written to " ++ Text.Ink.cyan.paint (← get).coloured path)
  if contrast.summary then
    Task.say (report.table (← get).coloured contrast.limit)
  return report

end Contrast
end FlameProfile
