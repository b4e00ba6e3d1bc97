import FlameProfile.Stack
import FlameProfile.Tree.Node

/-!
# Merging sorted stacks

Stacks that arrive in the order of their paths are merged into a flame tree in
one pass. The frames of the last path are open. A new stack closes the open
frames that are not on its path, opens the frames of its path that are missing,
and moves the offset on by its weight. A path that arrives again adds to its
last frame; frames shared with the path before keep what they were opened with.
-/

namespace FlameProfile

/-- A frame of the last path, open since an offset. -/
structure OpenFrame (Weight : Type) where
  label : String
  start : Weight
  calls : Nat
  failed : Bool
  delta : Option Weight
  deriving DecidableEq

/-- A path that arrived after a greater one. -/
structure UnsortedPath where
  previous : List String
  current : List String
  deriving DecidableEq

/-- The frames closed so far, and the open frames of the last path. -/
structure Merge (Weight : Type) where
  closed : List (Node Weight)
  /-- The open frames, innermost first. -/
  opened : List (OpenFrame Weight)
  /-- Sum of the weights so far. -/
  offset : Weight
  deriving DecidableEq

namespace Merge

variable {Weight : Type}

/-- Labels of the open frames, outermost first. -/
def path (merge : Merge Weight) : List String :=
  (merge.opened.map OpenFrame.label).reverse

/-- Length of the longest common beginning of two paths. -/
def commonLength : List String -> List String -> Nat
  | first :: firstRest, second :: secondRest =>
      if first = second then commonLength firstRest secondRest + 1 else 0
  | _, _ => 0

variable [Arithmetic Weight]

/-- Nothing merged yet. -/
def empty : Merge Weight where
  closed := []
  opened := []
  offset := 0

/-- The node of a frame that is closed with the given number of frames below. -/
def close
    (frame : OpenFrame Weight)
    (depth : Nat)
    (offset : Weight) : Node Weight where
  label := frame.label
  depth := depth
  start := some frame.start
  finish := offset
  calls := frame.calls
  failed := frame.failed
  delta := frame.delta

/-- Close open frames, the innermost first, down to a number of them. -/
def closeTo
    (kept : Nat)
    (offset : Weight) :
    List (OpenFrame Weight) -> List (Node Weight) -> List (OpenFrame Weight) × List (Node Weight)
  | [], closed => ([], closed)
  | frame :: below, closed =>
      if below.length < kept then
        (frame :: below, closed)
      else
        closeTo kept offset below ((close frame below.length offset).insertInto closed)

/-- Add a stack to the open frame at the end of its path. -/
def addToLeaf
    (stack : Stack Weight)
    (delta : Option Weight) : List (OpenFrame Weight) -> List (OpenFrame Weight)
  | [] => []
  | leaf :: below =>
      { leaf with
        calls := max leaf.calls stack.calls
        failed := leaf.failed || stack.failed
        delta :=
          match delta with
          | none => leaf.delta
          | some change => some (leaf.delta.getD 0 + change) } :: below

/-- Open frames with the given labels above the open frames there are. -/
def openFrames
    (stack : Stack Weight)
    (delta : Option Weight)
    (offset : Weight)
    (opened : List (OpenFrame Weight))
    (labels : List String) : List (OpenFrame Weight) :=
  (labels.map fun label => ⟨label, offset, stack.calls, stack.failed, delta⟩).reverse ++ opened

/-- Merge the next stack, with the change of its weight if there is one. -/
def push
    (merge : Merge Weight)
    (stack : Stack Weight)
    (delta : Option Weight) : Except UnsortedPath (Merge Weight) :=
  if stack.path < merge.path then
    .error ⟨merge.path, stack.path⟩
  else
    let common := commonLength merge.path stack.path
    let (kept, closed) := closeTo common merge.offset merge.opened merge.closed
    let opened :=
      if common = stack.path.length then
        addToLeaf stack delta kept
      else
        openFrames stack delta merge.offset kept (stack.path.drop common)
    .ok ⟨closed, opened, merge.offset + stack.weight⟩

/-- Merge stacks that come with the changes of their weights. -/
def pushAll (merge : Merge Weight) :
    List (Stack Weight × Option Weight) -> Except UnsortedPath (Merge Weight)
  | [] => .ok merge
  | (stack, delta) :: rest =>
      match merge.push stack delta with
      | .error unsorted => .error unsorted
      | .ok next => next.pushAll rest

/-- Close every open frame. -/
def finish (merge : Merge Weight) : Tree Weight where
  nodes := (closeTo 0 merge.offset merge.opened merge.closed).2
  total := merge.offset

end Merge

namespace Tree

variable {Weight : Type} [Arithmetic Weight]

/-- The tree of stacks, which are merged in the order of their paths. -/
def ofStacks (collapsed : List (Stack Weight)) : Except UnsortedPath (Tree Weight) :=
  (Merge.empty.pushAll ((Stack.sortByPath collapsed).map fun stack => (stack, none))).map
    Merge.finish

end Tree
end FlameProfile
