import FlameProfile.Arithmetic.Floating
import FlameProfile.Drawing.Options
import FlameProfile.Toml.Reader

/-!
# Configuration of pictures

Drawing options can be kept in a settings file. A setting that is missing keeps
its usual value and one that is unknown is passed over; a known one has to be of
the right kind, and all of them together have to describe a picture.
-/

namespace FlameProfile

/-- Why a settings file gives no drawing options. -/
inductive ConfigurationFault
  /-- The text is no document, or a setting is of the wrong kind. -/
  | malformed
  | invalid (fault : OptionFault Float)
  deriving DecidableEq

namespace Configuration

/-- The value of a setting, if it is there. -/
def setting
    {Value : Type}
    (members : Toml.Members)
    (name : String)
    (usual : Value)
    (convert : Toml -> Option Value) : Option Value :=
  match members.lookup name with
  | none => some usual
  | some value => convert value

/-- A text. -/
def text? : Toml -> Option String
  | .text content => some content
  | _ => none

/-- A number, whole or not. -/
def number? : Toml -> Option Float
  | .number value => some value
  | .integer value => some (Float.ofInt value)
  | _ => none

/-- Whether a value holds nothing. -/
def isVacant : Toml -> Bool
  | .row [] => true
  | .table _ [] => true
  | _ => false

/-- The name of an orientation, or a table in which it names a value that holds
nothing. -/
def orientation? : Toml -> Option Orientation
  | .text name => Orientation.ofExactName? name
  | .table _ [(name, value)] =>
      if isVacant value then Orientation.ofExactName? name else none
  | _ => none

/-- The options that a table of settings gives. -/
def ofMembers (members : Toml.Members) : Option (DrawingOptions Float) := do
  let usual : DrawingOptions Float := DrawingOptions.standard
  let title ← setting members "title" usual.title text?
  let subtitle ← setting members "subtitle" usual.subtitle text?
  let width ← setting members "width" usual.width number?
  let frameHeight ← setting members "frame_height" usual.frameHeight number?
  let minWidth ← setting members "min_width" usual.minWidth number?
  let orientation ← setting members "orientation" usual.orientation orientation?
  let unit ← setting members "unit" usual.unit text?
  some ⟨title, subtitle, width, frameHeight, minWidth, orientation, unit⟩

/-- Read drawing options. -/
def read (text : String) : Except ConfigurationFault (DrawingOptions Float) :=
  match (Toml.read text).bind ofMembers with
  | none => .error .malformed
  | some options =>
      match options.validate with
      | .error fault => .error (.invalid fault)
      | .ok () => .ok options

end Configuration
end FlameProfile
