import FlameProfile.Drawing.Layout

/-!
# Drawing options

The options of a picture that its user can choose. A width has to leave room
between the margins, rows have to have a height, and the least width of a frame
cannot be negative.
-/

namespace FlameProfile

/-- What the user of a picture can choose. -/
structure DrawingOptions (Number : Type) where
  title : String
  subtitle : String
  width : Number
  frameHeight : Number
  minWidth : Number
  orientation : Orientation
  unit : String
  deriving DecidableEq

/-- An option with a value that no picture can have. -/
inductive OptionFault (Number : Type)
  | width (value : Number)
  | frameHeight (value : Number)
  | minWidth (value : Number)
  deriving DecidableEq

namespace OptionFault

variable {Number : Type} [Arithmetic Number] [NumberText Number]

/-- Wording of what is wrong. -/
def reason : OptionFault Number -> String
  | .width value =>
      "width must exceed " ++
        NumberText.plain (Arithmetic.ofCount 2 * Canvas.margin : Number) ++
        " pixels, got " ++ NumberText.plain value
  | .frameHeight value => "frame_height must be positive, got " ++ NumberText.plain value
  | .minWidth value => "min_width must not be negative, got " ++ NumberText.plain value

/-- Wording of a fault. -/
def message (fault : OptionFault Number) : String :=
  "Invalid render configuration: " ++ fault.reason

end OptionFault

namespace DrawingOptions

variable {Number : Type} [Arithmetic Number]

/-- The options that are used when nothing is chosen. -/
def standard : DrawingOptions Number where
  title := "Flame Graph"
  subtitle := ""
  width := (Canvas.standard : Canvas Number).width
  frameHeight := (Canvas.standard : Canvas Number).frameHeight
  minWidth := (Canvas.standard : Canvas Number).minWidth
  orientation := .flame
  unit := (Canvas.standard : Canvas Number).unit

/-- Refuse options that no picture can have; the first fault is reported. -/
def validate (options : DrawingOptions Number) : Except (OptionFault Number) Unit :=
  if Arithmetic.ofCount 2 * Canvas.margin < options.width then
    if 0 < options.frameHeight then
      if 0 ≤ options.minWidth then
        .ok ()
      else
        .error (.minWidth options.minWidth)
    else
      .error (.frameHeight options.frameHeight)
  else
    .error (.width options.width)

/-- The measures of the picture. -/
def canvas (options : DrawingOptions Number) : Canvas Number :=
  { (Canvas.standard : Canvas Number) with
    width := options.width
    frameHeight := options.frameHeight
    minWidth := options.minWidth
    orientation := options.orientation
    unit := options.unit }

end DrawingOptions
end FlameProfile
