import FlameProfile.Resource
import FlameProfile.Text.Blank
import FlameProfile.TextMap

/-!
# Profiles

A profile is the document that a log is turned into: its resources, with a
header on what was measured and a note on what collected the events.
-/

namespace FlameProfile

/-- Resources with what is known of the run that they were measured in. -/
structure Profile (Amount : Type) where
  version : String
  /-- Kind of the resources that are measured. -/
  kind : String
  /-- Unit of each kind of resource. -/
  units : TextMap
  command : String
  workload : String
  collector : String
  parameters : TextMap
  generatedAt : String
  resources : List (Resource Amount)
  deriving DecidableEq

namespace Profile

variable {Amount : Type}

/-- Version of the documents that are written. -/
def schemaVersion : String := "1.0.0"

/-- Collector of the events that are read. -/
def collectorName : String := "python"

/-- The profile of resources measured in seconds. -/
def ofResources
    (resources : List (Resource Amount))
    (command workload generatedAt : String) : Profile Amount where
  version := schemaVersion
  kind := timeKind
  units := TextMap.ofList [(timeKind, timeUnit)]
  command := command
  workload := workload
  collector := collectorName
  parameters := TextMap.empty
  generatedAt := generatedAt
  resources := resources

/-- Unit of the measured kind. -/
def unit (profile : Profile Amount) : String :=
  (profile.units.find? profile.kind).getD timeUnit

/-- The command with its workload. -/
def commandLine (profile : Profile Amount) : String :=
  String.ofList (Text.trim (profile.command ++ " " ++ profile.workload).toList)

/-- Sum of all amounts. -/
def total
    [Arithmetic Amount]
    (profile : Profile Amount) : Amount :=
  Arithmetic.sum (profile.resources.map Resource.amount)

end Profile
end FlameProfile
