import FlameProfile.Arithmetic

/-!
# Flame trees

A flame tree is the list of its frames in the order in which they were closed.
A frame covers a range of offsets. Frames are told apart by their label, their
depth and the very value of their end offset; a frame that is closed where an
equal one stands takes its place.
-/

namespace FlameProfile

/-- One merged frame of a flame tree. -/
structure Node (Weight : Type) where
  label : String
  depth : Nat
  /-- Offset at which the frame was opened, if it is known. -/
  start : Option Weight
  finish : Weight
  calls : Nat
  failed : Bool
  /-- Change of the weight of the path that opened the frame. -/
  delta : Option Weight
  deriving DecidableEq

/-- The frames of a flame tree, and the weight of everything in it. -/
structure Tree (Weight : Type) where
  nodes : List (Node Weight)
  total : Weight
  deriving DecidableEq

variable {Weight : Type} [Arithmetic Weight]

namespace Node

/-- Width in units of weight; zero when the start is unknown. -/
def width (node : Node Weight) : Weight :=
  match node.start with
  | some start => node.finish - start
  | none => 0

/-- Whether a frame is the root above all paths. -/
def isRoot (node : Node Weight) : Bool :=
  node.depth = 0 && node.label = ""

/-- Whether a frame stands at a label, a depth and an end offset. -/
def isAt
    (node : Node Weight)
    (label : String)
    (depth : Nat)
    (finish : Weight) : Bool :=
  node.label = label && node.depth = depth && Arithmetic.identical node.finish finish

/-- Put a frame in the place of the one that stands where it does, or at the
end. -/
def insertInto (node : Node Weight) : List (Node Weight) -> List (Node Weight)
  | [] => [node]
  | other :: rest =>
      if other.isAt node.label node.depth node.finish then
        node :: rest
      else
        other :: node.insertInto rest

end Node

namespace Tree

/-- The tree of closed frames; of equal ones the last counts. -/
def ofNodes
    (nodes : List (Node Weight))
    (total : Weight) : Tree Weight where
  nodes := nodes.foldl (fun kept node => node.insertInto kept) []
  total := total

/-- The frame at a label, a depth and an end offset. -/
def find?
    (tree : Tree Weight)
    (label : String)
    (depth : Nat)
    (finish : Weight) : Option (Node Weight) :=
  tree.nodes.find? fun node => node.isAt label depth finish

/-- The first root frame. -/
def root? (tree : Tree Weight) : Option (Node Weight) :=
  tree.nodes.find? Node.isRoot

/-- The greatest size of a change; zero without changes. -/
def greatestChange (tree : Tree Weight) : Weight :=
  (tree.nodes.filterMap Node.delta).foldl
    (fun greatest delta => Arithmetic.larger greatest (Arithmetic.magnitude delta)) 0

end Tree
end FlameProfile
