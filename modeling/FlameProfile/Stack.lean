import FlameProfile.Arithmetic
import FlameProfile.FirstSeen
import FlameProfile.NumberText
import FlameProfile.Resource
import FlameProfile.Sorting

/-!
# Collapsed stacks

A collapsed stack is a call path with the weight that was spent at its end.
Resources with the same path are coalesced into one stack. Paths are ordered
lexicographically, frame by frame.
-/

namespace FlameProfile

/-- A call path with the weight spent at its end. -/
structure Stack (Weight : Type) where
  /-- Frame labels, outermost first. -/
  path : List String
  weight : Weight
  /-- The largest call count among what was coalesced. -/
  calls : Nat
  /-- Whether anything that was coalesced raised an exception. -/
  failed : Bool
  deriving DecidableEq

/-- Order of paths, frame by frame. -/
def pathOrder (first second : List String) : Ordering :=
  compareOfLessAndEq first second

namespace Stack

variable {Weight : Type}

/-- The path with semicolons between its frames. -/
def joined (stack : Stack Weight) : String :=
  String.intercalate ";" stack.path

/-- The frame at the end of the path. -/
def leaf (stack : Stack Weight) : String :=
  stack.path.getLast?.getD ""

/-- The path without a root frame. -/
def frames (stack : Stack Weight) : List String :=
  match stack.path with
  | "" :: rest => rest
  | path => path

/-- Text of a stack: the joined path and the weight. -/
def write
    [NumberText Weight]
    (stack : Stack Weight) : String :=
  stack.joined ++ " " ++ NumberText.plain stack.weight

/-- Stacks in the order of their paths. -/
def sortByPath (collapsed : List (Stack Weight)) : List (Stack Weight) :=
  Sorting.sort (fun first second => pathOrder first.path second.path) collapsed

variable [Arithmetic Weight]

/-- Order by falling weight, stacks of one weight by path. -/
def weightOrder
    (first second : Stack Weight) : Ordering :=
  (Arithmetic.order second.weight first.weight).then (pathOrder first.path second.path)

/-- Stacks with the heaviest first. -/
def sortByWeight (collapsed : List (Stack Weight)) : List (Stack Weight) :=
  Sorting.sort weightOrder collapsed

/-- Sum of the weights. -/
def totalWeight (collapsed : List (Stack Weight)) : Weight :=
  Arithmetic.sum (collapsed.map Stack.weight)

/-- The stack of one resource. -/
def ofResource (resource : Resource Weight) : Stack Weight where
  path := resource.path
  weight := resource.amount
  calls := resource.calls
  failed := !resource.exceptions.isEmpty

/-- Coalesce a stack with one of the same path. -/
def merge
    (stack added : Stack Weight) : Stack Weight :=
  { stack with
    weight := stack.weight + added.weight
    calls := max stack.calls added.calls
    failed := stack.failed || added.failed }

/-- Group stacks by path, in the order in which the paths appear. -/
def coalesce (collapsed : List (Stack Weight)) : FirstSeen (List String) (Stack Weight) :=
  collapsed.foldl
    (fun groups stack =>
      FirstSeen.record stack.path stack (fun group => group.merge stack) groups)
    []

/-- One stack for each path of the resources, in the order of the paths. -/
def ofResources (resources : List (Resource Weight)) : List (Stack Weight) :=
  sortByPath ((coalesce (resources.map ofResource)).map Prod.snd)

end Stack
end FlameProfile
