import FlameProfile.Session.Analysis

/-!
# Pictures of profiles

A profile that was written before is drawn again. Its unit is the one that
tooltips show.
-/

namespace FlameProfile

/-- What a rendering is asked for. -/
structure Rendering where
  /-- Path of the profile. -/
  profile : String
  /-- Path that the picture is written to. -/
  picture : String
  options : Option (DrawingOptions Float)

namespace Rendering

/-- Options with the unit of a profile. -/
def optionsFor
    (options : Option (DrawingOptions Float))
    (profile : Profile Float) : DrawingOptions Float :=
  { options.getD DrawingOptions.standard with unit := profile.unit }

/-- Draw a profile. -/
def run (rendering : Rendering) : Task TaskFault Unit := do
  let profile ←
    (Storage.readProfile rendering.profile).failingWith (TaskFault.profileRead rendering.profile)
  let document ←
    Task.ofResult (Analysis.draw (optionsFor rendering.options profile) profile)
  (Storage.writePicture rendering.picture document).failingWith .pictureWrite

end Rendering
end FlameProfile
