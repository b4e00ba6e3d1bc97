import FlameProfile.Stack

/-!
# Hot paths

A hot path is a stack with its share of the total weight. For display a path
is shortened: frames that repeat are written once, with the length of the run,
which is counted in a machine word.
-/

namespace FlameProfile

namespace Trace

/-- Text of a run of a label, with the count of its labels if there are several. -/
def writeRun
    (label : String)
    (count : Int32) : String :=
  if 1 < count then s!"... {label} (x{count})" else label

/-- Write the run of a label that is under way, and what comes behind it. The count is a
word of 32 bits with a sign and wraps around behind the greatest one. -/
def simplifyFrom
    (label : String)
    (count : Int32) : List String -> List String
  | [] => [writeRun label count]
  | next :: rest =>
      if next = label then
        simplifyFrom label (count + 1) rest
      else
        writeRun label count :: simplifyFrom next 1 rest

/-- A trace with each run of equal labels as one text. -/
def simplify : List String -> List String
  | [] => []
  | label :: rest => simplifyFrom label 1 rest

end Trace

/-- A stack with its share of a total. -/
structure HotPath (Weight : Type) where
  /-- Frames below the root, with runs of equal labels shortened. -/
  frames : List String
  weight : Weight
  percentage : Weight
  calls : Nat
  failed : Bool
  deriving DecidableEq

namespace HotPath

variable {Weight : Type}

/-- The frames with arrows between them. -/
def write (path : HotPath Weight) : String :=
  String.intercalate " -> " path.frames

/-- The innermost frame. -/
def leaf (path : HotPath Weight) : String :=
  path.frames.getLast?.getD "all"

variable [Arithmetic Weight]

/-- Part of a total in hundredths; nothing is a part of a total that is not
positive. -/
def percentageOf
    (part total : Weight) : Weight :=
  if 0 < total then part / total * Arithmetic.ofCount 100 else 0

/-- The hot path of a stack. -/
def ofStack
    (total : Weight)
    (stack : Stack Weight) : HotPath Weight where
  frames := Trace.simplify stack.frames
  weight := stack.weight
  percentage := percentageOf stack.weight total
  calls := stack.calls
  failed := stack.failed

/-- The heaviest stacks, with their shares of the weight of all stacks. -/
def heaviest
    (count : Nat)
    (collapsed : List (Stack Weight)) : List (HotPath Weight) :=
  ((Stack.sortByWeight collapsed).take count).map (ofStack (Stack.totalWeight collapsed))

end HotPath
end FlameProfile
