import FlameProfile.Decimal.Numeral
import FlameProfile.Text.Fields

/-!
# Source locations

A location names a function by its source, its name and the line it starts on.
It is written with colons between the three and read from its end, so that the
source may hold colons itself.
-/

namespace FlameProfile

/-- A function in a source. -/
structure Location where
  source : String
  function : String
  line : UInt32
  deriving DecidableEq

namespace Location

/-- Why a text is not a location. -/
inductive Fault
  | malformed (text : String)
  | line (text : String) (fault : Numeral.Fault)
  deriving DecidableEq

/-- Wording of a fault. -/
def Fault.message : Fault -> String
  | .malformed text => s!"uid '{text}' must have the form source:function:line"
  | .line text fault => s!"invalid line number '{text}': {fault.message}"

/-- Text of a line number. -/
def writeLine (line : UInt32) : String :=
  String.ofList (Numeral.write line.toNat)

/-- Text of a location. -/
def write (location : Location) : String :=
  location.source ++ ":" ++ location.function ++ ":" ++ writeLine location.line

/-- Read a line number. -/
def readLine (text : List Char) : Except Fault UInt32 :=
  match Numeral.read (Numeral.wordLimit 32) text with
  | .ok line => .ok (UInt32.ofNat line)
  | .error fault => .error (.line (String.ofList text) fault)

/-- Read a location. -/
def read (text : String) : Except Fault Location :=
  match Text.fieldsFromEnd ':' 2 text.toList with
  | [line, function, source] =>
      match readLine line with
      | .ok line => .ok ⟨String.ofList source, String.ofList function, line⟩
      | .error fault => .error fault
  | _ => .error (.malformed text)

/-- Order by source, then by function, then by line. -/
def order
    (first second : Location) : Ordering :=
  (compare first.source second.source).then
    ((compare first.function second.function).then (compare first.line second.line))

end Location
end FlameProfile
