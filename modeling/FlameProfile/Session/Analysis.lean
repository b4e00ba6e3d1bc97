import FlameProfile.Report.Summary
import FlameProfile.Session.Fault

/-!
# Analysis of a log

A log is read, its calls are reconstructed and their resources are written as
a profile. A picture and a summary are made if they are asked for.
-/

namespace FlameProfile

/-- What an analysis is asked for. -/
structure Analysis where
  /-- Path of the log. -/
  log : String
  /-- Path that the profile is written to. -/
  profile : String
  /-- Path that a picture is written to. -/
  picture : Option String
  options : Option (DrawingOptions Float)
  strategy : ParentStrategy
  /-- Whether a summary is shown. -/
  summary : Bool
  /-- Most rows in the table of hot paths. -/
  limit : Nat
  command : String
  workload : String

namespace Analysis

/-- Refuse what cannot be analysed; the first fault is reported. -/
def validate
    (analysis : Analysis)
    (workspace : Workspace) : Except TaskFault Unit :=
  if analysis.log = "" then
    .error .noLog
  else if workspace.isFile analysis.log = false then
    .error (.logMissing analysis.log)
  else if analysis.limit = 0 then
    .error .noRows
  else if TaskFault.rowLimit < analysis.limit then
    .error .tooManyRows
  else
    match analysis.options with
    | none => .ok ()
    | some options => options.validate.mapError .options

/-- The picture of a profile. -/
def draw
    (options : DrawingOptions Float)
    (profile : Profile Float) : Except TaskFault String :=
  (Picture.ofStacks options (Stack.ofResources profile.resources)).mapError fun fault =>
    match fault with
    | .unsorted fault => .merge fault
    | .layout fault => .draw fault

/-- Analyse a log. -/
def run (analysis : Analysis) : Task TaskFault (Profile Float) := do
  let events ← (Storage.readLog analysis.log).failingWith (TaskFault.log analysis.log)
  let reconstruction := Reconstruction.ofEvents analysis.strategy.rule events
  let profile :=
    Profile.ofResources reconstruction.resources analysis.command analysis.workload
      (← get).now
  (Storage.writeProfile analysis.profile profile).failingWith .profileWrite
  if let some path := analysis.picture then
    let document ←
      Task.ofResult (Analysis.draw (analysis.options.getD DrawingOptions.standard) profile)
    (Storage.writePicture path document).failingWith .pictureWrite
  if analysis.summary then
    let summary : Summary Float :=
      { log := analysis.log
        profile := profile
        reconstruction := reconstruction
        collapsed := Stack.ofResources profile.resources
        limit := analysis.limit }
    (summary.lines (← get).coloured).forM Task.say
  return profile

end Analysis
end FlameProfile
