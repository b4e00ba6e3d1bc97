import FlameProfile.Report.Overview
import FlameProfile.Session.Fault

/-!
# Inspection of a profile

A profile is read, its amounts are checked and an overview of it is shown.
-/

namespace FlameProfile
namespace Inspection

/-- Inspect the profile at a path. -/
def run (path : String) : Task TaskFault Unit := do
  Task.say s!"Validating profile: {path}"
  let profile ← (Storage.readProfile path).failingWith (TaskFault.profileInvalid path)
  match Overview.unsound? profile with
  | some resource => throw (.amountInvalid resource)
  | none => (Overview.lines profile).forM Task.say

end Inspection
end FlameProfile
