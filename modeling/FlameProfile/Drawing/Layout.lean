import FlameProfile.NumberText
import FlameProfile.Sorting
import FlameProfile.Text.Quoted
import FlameProfile.Tree.Node

/-!
# Layout of a flame tree

Offsets in units of weight become horizontal positions in pixels; the depth of
a frame becomes its row. Frames narrower than a least width are left out. The
root is at the bottom of a flame and at the top of an icicle. A one-pixel gap
separates the rows.
-/

namespace FlameProfile

/-- Whether the stacks grow upward or downward. -/
inductive Orientation
  | flame
  | icicle
  deriving DecidableEq

namespace Orientation

/-- A name that no orientation has. -/
structure UnknownName where
  name : String
  deriving DecidableEq

/-- Wording of an unknown name. -/
def UnknownName.message (unknown : UnknownName) : String :=
  s!"unknown orientation '{unknown.name}'"

/-- Name of an orientation. -/
def name : Orientation -> String
  | .flame => "flame"
  | .icicle => "icicle"

/-- The orientation with exactly a name. -/
def ofExactName? : String -> Option Orientation
  | "flame" => some .flame
  | "icicle" => some .icicle
  | _ => none

/-- The orientation with a name, in letters of either case. -/
def ofName (name : String) : Except UnknownName Orientation :=
  match ofExactName? name.toLower with
  | some orientation => .ok orientation
  | none => .error ⟨name.toLower⟩

end Orientation

/-- Measures of the picture, in pixels, and the unit that tooltips show. -/
structure Canvas (Number : Type) where
  width : Number
  frameHeight : Number
  /-- Least width of a visible frame. -/
  minWidth : Number
  /-- Blank margin on the left and on the right. -/
  xPadding : Number
  /-- Room above the frames. -/
  titleHeight : Number
  /-- Room below the frames. -/
  subtitleHeight : Number
  orientation : Orientation
  unit : String
  deriving DecidableEq

/-- A frame with its place in the picture. -/
structure Frame (Number : Type) where
  x1 : Number
  y1 : Number
  x2 : Number
  y2 : Number
  label : String
  depth : Nat
  /-- Weight that the frame covers. -/
  weight : Number
  /-- Text of the tooltip. -/
  info : String
  failed : Bool
  delta : Option Number
  deriving DecidableEq

/-- Frames in their places, row by row and from left to right. -/
structure Layout (Number : Type) where
  frames : List (Frame Number)
  maxDepth : Nat
  widthPerUnit : Number
  width : Number
  height : Number
  total : Number
  deriving DecidableEq

/-- Why a tree cannot be laid out. -/
inductive LayoutFault (Number : Type)
  | emptyLog
  | missingStart (label : String) (depth : Nat) (finish : Number)
  deriving DecidableEq

/-- Wording of a fault. -/
def LayoutFault.message
    {Number : Type}
    [NumberText Number] : LayoutFault Number -> String
  | .emptyLog => "Profile has no recorded weight, nothing to lay out"
  | .missingStart label depth finish =>
      "Missing start offset for node " ++ Text.quote label ++ s!" at depth {depth} (end " ++
        NumberText.plain finish ++ ")"

namespace Canvas

variable {Number : Type} [Arithmetic Number]

/-- Size of the letters. -/
def fontSize : Nat := 12

/-- Blank margin on the left and on the right. -/
def margin : Number := Arithmetic.ofCount 10

/-- The measures that are used when nothing else is asked for. -/
def standard : Canvas Number where
  width := Arithmetic.ofCount 1200
  frameHeight := Arithmetic.ofCount 16
  minWidth := 0.1
  xPadding := margin
  titleHeight := Arithmetic.ofCount (3 * fontSize)
  subtitleHeight := Arithmetic.ofCount (2 * fontSize)
  orientation := .flame
  unit := "s"

end Canvas

namespace Frame

variable {Number : Type} [Arithmetic Number]

/-- Width in pixels. -/
def width (frame : Frame Number) : Number :=
  frame.x2 - frame.x1

/-- Height in pixels. -/
def height (frame : Frame Number) : Number :=
  frame.y2 - frame.y1

/-- Tooltip of a frame: its weight, its share of the total and its change. -/
def tooltip
    [NumberText Number]
    (label : String)
    (isRoot : Bool)
    (weight total : Number)
    (delta : Option Number)
    (unit : String) : String :=
  let measured := NumberText.fixed 6 weight ++ " " ++ unit
  if isRoot then
    "all (" ++ measured ++ ", 100%)"
  else
    let hundred : Number := Arithmetic.ofCount 100
    let share := NumberText.fixed 2 (hundred * weight / total)
    let change :=
      match delta with
      | none => ""
      | some delta => ", " ++ NumberText.signed 2 (hundred * delta / total) ++ "%"
    label ++ " (" ++ measured ++ ", " ++ share ++ "%)" ++ change

end Frame

namespace Layout

variable {Number : Type} [Arithmetic Number]

/-- A node with the range of offsets that it is drawn over. -/
structure Extent (Number : Type) where
  node : Node Number
  start : Number
  finish : Number
  deriving DecidableEq

/-- Weight of an extent. -/
def Extent.weight (extent : Extent Number) : Number :=
  extent.finish - extent.start

/-- The extents of nodes, of which every start has to be known. The root covers
the whole weight. -/
def extents
    (total : Number) :
    List (Node Number) -> Except (LayoutFault Number) (List (Extent Number))
  | [] => .ok []
  | node :: rest =>
      match node.start with
      | none => .error (.missingStart node.label node.depth node.finish)
      | some start =>
          match extents total rest with
          | .error fault => .error fault
          | .ok others =>
              .ok (⟨node, start, if node.isRoot then total else node.finish⟩ :: others)

/-- Top and bottom of a row. -/
def rowBounds
    (canvas : Canvas Number)
    (height : Number)
    (depth : Nat) : Number × Number :=
  let gap : Number := Arithmetic.ofCount 1
  let row : Number := Arithmetic.ofCount depth
  let next : Number := row + Arithmetic.ofCount 1
  match canvas.orientation with
  | .icicle =>
      ( canvas.titleHeight + row * canvas.frameHeight
      , canvas.titleHeight + next * canvas.frameHeight - gap )
  | .flame =>
      ( height - canvas.subtitleHeight - next * canvas.frameHeight + gap
      , height - canvas.subtitleHeight - row * canvas.frameHeight )

/-- Position of an offset. -/
def position
    (canvas : Canvas Number)
    (widthPerUnit offset : Number) : Number :=
  canvas.xPadding + offset * widthPerUnit

/-- Whether a left edge is nowhere although all that it is computed from are
numbers: nothing taken infinitely often has no position. -/
def lost
    (canvas : Canvas Number)
    (widthPerUnit : Number)
    (extent : Extent Number) : Bool :=
  let edge := position canvas widthPerUnit extent.start
  !decide (edge ≤ edge) && decide (extent.start ≤ extent.start) &&
    decide (canvas.width ≤ canvas.width) && decide (canvas.xPadding ≤ canvas.xPadding)

/-- Order by row, then from left to right, lost edges before all others. -/
def order
    (canvas : Canvas Number)
    (widthPerUnit : Number)
    (first second : Extent Number) : Ordering :=
  (compare first.node.depth second.node.depth).then
    ((compare (!lost canvas widthPerUnit first) (!lost canvas widthPerUnit second)).then
      (Arithmetic.rank (position canvas widthPerUnit first.start)
        (position canvas widthPerUnit second.start)))

/-- The frame of an extent. -/
def place
    [NumberText Number]
    (canvas : Canvas Number)
    (total widthPerUnit height : Number)
    (extent : Extent Number) : Frame Number :=
  let bounds := rowBounds canvas height extent.node.depth
  { x1 := position canvas widthPerUnit extent.start
    y1 := bounds.1
    x2 := position canvas widthPerUnit extent.finish
    y2 := bounds.2
    label := extent.node.label
    depth := extent.node.depth
    weight := extent.weight
    info :=
      Frame.tooltip extent.node.label extent.node.isRoot extent.weight total
        extent.node.delta canvas.unit
    failed := extent.node.failed
    delta := extent.node.delta }

/-- Lay out a tree, a total weight being mapped to the width between the
margins. Depths are natural numbers without a bound, so the number of rows, which is one
more than the greatest depth, is always counted; no machine word overflows there. -/
def ofTree
    [NumberText Number]
    (canvas : Canvas Number)
    (tree : Tree Number)
    (total : Number) : Except (LayoutFault Number) (Layout Number) :=
  if total ≤ 0 ∨ Arithmetic.isFinite total = false then
    .error .emptyLog
  else
    let widthPerUnit :=
      (canvas.width - Arithmetic.ofCount 2 * canvas.xPadding) / total
    let leastWeight := canvas.minWidth / widthPerUnit
    match extents total tree.nodes with
    | .error fault => .error fault
    | .ok all =>
        let visible := all.filter fun extent => !decide (extent.weight < leastWeight)
        let maxDepth := (visible.map fun extent => extent.node.depth).foldl max 0
        let height :=
          Arithmetic.ofCount (maxDepth + 1) * canvas.frameHeight + canvas.titleHeight +
            canvas.subtitleHeight
        .ok
          { frames :=
              (Sorting.sort (order canvas widthPerUnit) visible).map
                (place canvas total widthPerUnit height)
            maxDepth := maxDepth
            widthPerUnit := widthPerUnit
            width := canvas.width
            height := height
            total := total }

end Layout
end FlameProfile
