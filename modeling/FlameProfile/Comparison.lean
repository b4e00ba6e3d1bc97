import FlameProfile.FirstSeen
import FlameProfile.Sorting
import FlameProfile.Tree.Node

/-!
# Comparing trees

Two trees are compared frame by frame. Frames with one label and one depth
count as the same frame, whatever callers they have, and their widths add up.
The greatest changes come first.
-/

namespace FlameProfile

/-- Width of a label at a depth in two trees. -/
structure Comparison (Weight : Type) where
  label : String
  depth : Nat
  baseline : Weight
  target : Weight
  deriving DecidableEq

namespace Comparison

variable {Weight : Type} [Arithmetic Weight]

/-- Change of the width. -/
def delta (comparison : Comparison Weight) : Weight :=
  comparison.target - comparison.baseline

/-- Change in hundredths of a baseline, if there is a baseline. -/
def percentOf
    (baseline delta : Weight) : Option Weight :=
  if 0 < baseline then some (delta / baseline * Arithmetic.ofCount 100) else none

/-- Change in hundredths of the width in the baseline. -/
def percent? (comparison : Comparison Weight) : Option Weight :=
  percentOf comparison.baseline comparison.delta

/-- Order by falling size of the change, then by depth, then by label. -/
def order
    (first second : Comparison Weight) : Ordering :=
  (Arithmetic.order
      (Arithmetic.magnitude second.delta) (Arithmetic.magnitude first.delta)).then
    ((compare first.depth second.depth).then (compare first.label second.label))

/-- Widths in the two trees, by label and depth. -/
abbrev Widths (Weight : Type) :=
  FirstSeen (String × Nat) (Weight × Weight)

/-- Add the width of a frame of the baseline. -/
def addBaseline
    (widths : Widths Weight)
    (node : Node Weight) : Widths Weight :=
  FirstSeen.record (node.label, node.depth) (0 + node.width, 0)
    (fun sums => (sums.1 + node.width, sums.2)) widths

/-- Add the width of a frame of the target. -/
def addTarget
    (widths : Widths Weight)
    (node : Node Weight) : Widths Weight :=
  FirstSeen.record (node.label, node.depth) (0, 0 + node.width)
    (fun sums => (sums.1, sums.2 + node.width)) widths

/-- Compare two trees, the greatest changes first. -/
def ofTrees
    (baseline target : Tree Weight) : List (Comparison Weight) :=
  let widths := target.nodes.foldl addTarget (baseline.nodes.foldl addBaseline [])
  Sorting.sort order
    (widths.map fun (frame, sums) => ⟨frame.1, frame.2, sums.1, sums.2⟩)

end Comparison
end FlameProfile
