import FlameProfile.FirstSeen
import FlameProfile.NumberText
import FlameProfile.Profile

/-!
# Overview of a profile

A profile is sound if every amount is a finite number that is not negative. The
overview shows what a sound profile holds.
-/

namespace FlameProfile
namespace Overview

variable {Amount : Type} [Arithmetic Amount]

/-- Whether an amount can have been measured. -/
def isMeasured (amount : Amount) : Bool :=
  Arithmetic.isFinite amount && !decide (amount < 0)

/-- The first resource whose amount cannot have been measured. -/
def unsound? (profile : Profile Amount) : Option (Resource Amount) :=
  profile.resources.find? fun resource => !isMeasured resource.amount

/-- The threads that resources were measured on. -/
def threads (profile : Profile Amount) : List String :=
  FirstSeen.keys (profile.resources.foldl
    (fun table resource => FirstSeen.record resource.thread () id table) [])

/-- The lines of an overview. -/
def lines
    [NumberText Amount]
    (profile : Profile Amount) : List String :=
  [ "✓ Valid profile JSON"
  , "  Version: " ++ profile.version
  , "  Generated: " ++ profile.generatedAt
  , "  Collector: " ++ profile.collector
  , s!"  Resources: {profile.resources.length}"
  , s!"  Threads: {(threads profile).length}"
  , "  Total " ++ profile.kind ++ ": " ++ NumberText.fixed 6 profile.total ++ " " ++
      profile.unit ]

end Overview
end FlameProfile
