import FlameProfile.Call.Reconstruction
import FlameProfile.Distribution
import FlameProfile.Profile
import FlameProfile.Report.HotPathTable

/-!
# Summary of an analysis

The summary of a log shows how long everything took, how many calls there were,
how the time is spread and which paths are the hottest.
-/

namespace FlameProfile

/-- What a summary tells of. -/
structure Summary (Weight : Type) where
  /-- Path of the log. -/
  log : String
  profile : Profile Weight
  reconstruction : Reconstruction Weight
  collapsed : List (Stack Weight)
  /-- Most rows in the table of hot paths. -/
  limit : Nat

namespace Summary

variable {Weight : Type} [Arithmetic Weight] [NumberText Weight]

/-- The lines of a summary. -/
def lines
    (coloured : Bool)
    (summary : Summary Weight) : List String :=
  let unit := summary.profile.unit
  let rule := HotPath.rule 80
  let command :=
    if summary.profile.commandLine = "" then
      []
    else
      ["  Command:         " ++ summary.profile.commandLine]
  let unmatched :=
    if 0 < summary.reconstruction.unmatched then
      [ "  Unmatched exits: " ++
          Text.Ink.yellow.paint coloured (toString summary.reconstruction.unmatched) ]
    else
      []
  ["", rule, "  " ++ Text.Ink.bold.paint coloured "CALL PROFILE SUMMARY", rule,
      "  Event log:       " ++ summary.log] ++
    command ++
    [ "  Total time:      " ++ Text.padLeft 12 (NumberText.fixed 6 summary.profile.total) ++
        " " ++ unit
    , s!"  Threads:         {summary.reconstruction.threadsInOrder.length}"
    , s!"  Completed calls: {summary.reconstruction.completedCount}"
    , s!"  Open calls:      {summary.reconstruction.openCount}" ] ++
    unmatched ++
    [ s!"  Unique paths:    {summary.collapsed.length}"
    , "  " ++ Text.Ink.dimmed.paint coloured
        ((Distribution.ofStacks summary.collapsed).summary unit)
    , ""
    , HotPath.table coloured summary.limit unit
        (HotPath.heaviest summary.limit summary.collapsed)
    , rule
    , "" ]

end Summary
end FlameProfile
