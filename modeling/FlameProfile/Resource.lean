import FlameProfile.Call.Reconstruction

/-!
# Resources

A resource is the flattened measurement of one completed call. The trace names
the callers by location alone, so that equal paths on different threads meet.
-/

namespace FlameProfile

/-- Kind of resource that a reconstruction yields. -/
def timeKind : String := "time"

/-- Unit of times, and of resources without a unit of their own. -/
def timeUnit : String := "s"

/-- The measurement of one completed call. -/
structure Resource (Amount : Type) where
  amount : Amount
  location : Location
  thread : String
  kind : String
  /-- Number of calls of the function name in the whole log. -/
  calls : Nat
  /-- The callers, outermost first. -/
  trace : List Location
  exceptions : List String
  deriving DecidableEq

namespace Resource

/-- Functions from the callers to the called one, below a root without a name. -/
def path
    {Amount : Type}
    (resource : Resource Amount) : List String :=
  "" :: resource.trace.map Location.function ++ [resource.location.function]

end Resource

namespace Reconstruction

/-- One resource for each completed call, measured by its exclusive time. -/
def resources
    {Time : Type}
    (reconstruction : Reconstruction Time) : List (Resource Time) :=
  reconstruction.completed.map fun (key, record) =>
    { amount := record.exclusive
      location := key.toLocation
      thread := key.thread
      kind := timeKind
      calls := reconstruction.callCount key.function
      trace := record.trace.map EventKey.toLocation
      exceptions := record.exceptions }

end Reconstruction
end FlameProfile
