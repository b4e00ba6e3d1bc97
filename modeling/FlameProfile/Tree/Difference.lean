import FlameProfile.Tree.Merge

/-!
# Differential trees

Two lists of stacks are merged into one tree. The target gives the weights. The
path that opens a frame gives it the change of that path's weight from the
baseline to the target. A path of the baseline alone has no weight in the tree.
-/

namespace FlameProfile

/-- A path of the target or the baseline, with its weight in both. -/
structure PairedStack (Weight : Type) where
  /-- The stack of the target, without weight if only the baseline has it. -/
  target : Stack Weight
  baselineWeight : Weight
  deriving DecidableEq

namespace PairedStack

variable {Weight : Type} [Arithmetic Weight]

/-- Change of the weight from the baseline to the target. -/
def delta (paired : PairedStack Weight) : Weight :=
  paired.target.weight - paired.baselineWeight

/-- Take a stack of the target into account. -/
def addTarget
    (paths : FirstSeen (List String) (PairedStack Weight))
    (stack : Stack Weight) : FirstSeen (List String) (PairedStack Weight) :=
  FirstSeen.record stack.path ⟨stack, 0⟩
    (fun paired => { paired with target := paired.target.merge stack }) paths

/-- Take a stack of the baseline into account. -/
def addBaseline
    (paths : FirstSeen (List String) (PairedStack Weight))
    (stack : Stack Weight) : FirstSeen (List String) (PairedStack Weight) :=
  FirstSeen.record stack.path ⟨{ stack with weight := 0, failed := false }, stack.weight⟩
    (fun paired => { paired with baselineWeight := paired.baselineWeight + stack.weight }) paths

/-- The paths of both lists in order, each with its weights. -/
def ofStacks
    (baseline target : List (Stack Weight)) : List (PairedStack Weight) :=
  Sorting.sort (fun first second => pathOrder first.target.path second.target.path)
    ((baseline.foldl addBaseline (target.foldl addTarget [])).map Prod.snd)

end PairedStack

namespace Tree

variable {Weight : Type} [Arithmetic Weight]

/-- The differential tree of two lists of stacks. -/
def difference
    (baseline target : List (Stack Weight)) : Except UnsortedPath (Tree Weight) :=
  (Merge.empty.pushAll ((PairedStack.ofStacks baseline target).map fun paired =>
    (paired.target, some paired.delta))).map Merge.finish

end Tree
end FlameProfile
