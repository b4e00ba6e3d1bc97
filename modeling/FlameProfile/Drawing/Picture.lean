import FlameProfile.Drawing.Colour
import FlameProfile.Drawing.Label
import FlameProfile.Drawing.Markup
import FlameProfile.Drawing.Options
import FlameProfile.Tree.Difference

/-!
# Pictures

A picture is a document of vector graphics. Behind a title and a subtitle it
draws each frame of a layout as a rectangle with a tooltip and, where there is
room, a label.
-/

namespace FlameProfile

/-- Why there is no picture of stacks. -/
inductive PictureFault (Number : Type)
  | unsorted (fault : UnsortedPath)
  | layout (fault : LayoutFault Number)
  deriving DecidableEq

/-- Wording of paths that arrive out of order. -/
def UnsortedPath.message (fault : UnsortedPath) : String :=
  "Stack paths must be sorted: " ++ Text.quoteAll fault.current ++ " arrived after " ++
    Text.quoteAll fault.previous

/-- Wording of a fault. -/
def PictureFault.message
    {Number : Type}
    [NumberText Number] : PictureFault Number -> String
  | .unsorted fault => fault.message
  | .layout fault => fault.message

namespace Picture

variable {Number : Type} [Arithmetic Number] [NumberText Number]

/-- A length in hundredths of a pixel. -/
def length (value : Number) : String :=
  NumberText.fixed 2 value

/-- A text element at a place. -/
def textElement
    (attributes : String)
    (x y : Number)
    (text : String) : String :=
  "<text " ++ attributes ++ "x=\"" ++ length x ++ "\" y=\"" ++ length y ++ "\">" ++
    Markup.escape text ++ "</text>"

/-- Beginning of the document, with the size of the picture. -/
def opening
    (width height : Number) : String :=
  let w := NumberText.plain width
  let h := NumberText.plain height
  "<?xml version=\"1.0\" standalone=\"no\"?><svg version=\"1.1\" " ++
    "xmlns=\"http://www.w3.org/2000/svg\" width=\"" ++ w ++ "\" height=\"" ++ h ++
    "\" viewBox=\"0 0 " ++ w ++ " " ++ h ++ "\">"

/-- Style sheet of the document. -/
def styles : String :=
  "<style type=\"text/css\">text \x7b font-family:Verdana; font-size:" ++
    toString Canvas.fontSize ++
    "px; fill:#000000; \x7d #title \x7b text-anchor:middle; font-size:" ++
    toString (Canvas.fontSize + 5) ++
    "px; \x7d #subtitle \x7b text-anchor:middle; \x7d " ++
    "#frames > *:hover \x7b stroke:black; stroke-width:0.5; cursor:pointer; \x7d</style>"

/-- White ground of the picture. -/
def ground
    (width height : Number) : String :=
  "<rect x=\"0\" y=\"0\" width=\"" ++ NumberText.plain width ++ "\" height=\"" ++
    NumberText.plain height ++ "\" fill=\"white\"/>"

/-- Title and subtitle. -/
def headings
    (width : Number)
    (title subtitle : String) : String :=
  let middle := width / Arithmetic.ofCount 2
  textElement "id=\"title\" " middle (Arithmetic.ofCount (2 * Canvas.fontSize)) title ++
    textElement "id=\"subtitle\" " middle (Arithmetic.ofCount (4 * Canvas.fontSize)) subtitle

/-- One frame. -/
def frame
    (fill : Frame Number -> Colour)
    (frame : Frame Number) : String :=
  let three : Number := Arithmetic.ofCount 3
  let label :=
    match Label.fit frame.label frame.width with
    | none => ""
    | some text =>
        textElement "" (frame.x1 + three)
          (three + (frame.y1 + frame.y2) / Arithmetic.ofCount 2) text
  "<g><title>" ++ Markup.escape frame.info ++ "</title><rect x=\"" ++ length frame.x1 ++
    "\" y=\"" ++ length frame.y1 ++ "\" width=\"" ++ length frame.width ++
    "\" height=\"" ++ length frame.height ++ "\" fill=\"" ++ (fill frame).write ++
    "\" rx=\"2\" ry=\"2\"/>" ++ label ++ "</g>"

/-- The document of a layout, each frame filled with its colour. -/
def ofLayout
    (layout : Layout Number)
    (title subtitle : String)
    (fill : Frame Number -> Colour) : String :=
  opening layout.width layout.height ++ styles ++
    ground layout.width layout.height ++ headings layout.width title subtitle ++
    "<g id=\"frames\">" ++ String.join (layout.frames.map (frame fill)) ++ "</g></svg>"

/-- Picture of a tree. -/
def ofTree
    (options : DrawingOptions Number)
    (tree : Tree Number) : Except (LayoutFault Number) String :=
  (Layout.ofTree options.canvas tree tree.total).map fun layout =>
    ofLayout layout options.title options.subtitle fun frame => Colour.ofFailure frame.failed

/-- Picture of a differential tree. -/
def ofDifference
    (options : DrawingOptions Number)
    (tree : Tree Number) : Except (LayoutFault Number) String :=
  (Layout.ofTree options.canvas tree tree.total).map fun layout =>
    ofLayout layout (options.title ++ " (Diff)") options.subtitle fun frame =>
      Colour.ofChange (frame.delta.getD 0) frame.weight tree.greatestChange

/-- Picture of stacks. -/
def ofStacks
    (options : DrawingOptions Number)
    (collapsed : List (Stack Number)) : Except (PictureFault Number) String :=
  match Tree.ofStacks collapsed with
  | .error fault => .error (.unsorted fault)
  | .ok tree => (ofTree options tree).mapError PictureFault.layout

/-- Differential picture of two lists of stacks. -/
def ofStackDifference
    (options : DrawingOptions Number)
    (baseline target : List (Stack Number)) : Except (PictureFault Number) String :=
  match Tree.difference baseline target with
  | .error fault => .error (.unsorted fault)
  | .ok tree => (ofDifference options tree).mapError PictureFault.layout

end Picture
end FlameProfile
