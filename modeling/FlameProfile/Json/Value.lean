import FlameProfile.Decimal.Format

/-!
# Documents of nested values

A document is a value built from texts, numbers, rows and records. The members
of a record keep their order, and a name may stand in it twice.

Reading a document stops at the first place that it cannot read. What was read
until then is still a value, in which a damaged place stands for what could not
be read. Whoever goes through the value from left to right meets the first
thing wrong with the document, be it damaged or merely unexpected.
-/

namespace FlameProfile

namespace Json

/-- What kind of thing is wrong with a document. -/
inductive Fault
  /-- The text is no document. -/
  | malformed
  /-- A value is not of the expected shape. -/
  | mismatch
  /-- The text ends too early. -/
  | ended
  /-- The text cannot be had. -/
  | unreadable
  deriving DecidableEq

/-- Name of a kind of fault. -/
def Fault.category : Fault -> String
  | .malformed => "Syntax"
  | .mismatch => "Data"
  | .ended => "Eof"
  | .unreadable => "Io"

/-- A place in a document where no value could be read. -/
structure Damage where
  /-- The fault for a reader who needs the value. -/
  used : Fault
  /-- The fault for a reader who passes over the value, if that is a fault. -/
  skipped : Option Fault
  /-- Whether anything stands at the place, or a separator leads to it. -/
  started : Bool
  deriving DecidableEq

/-- A place behind which nothing could be read. -/
def Damage.stop
    (fault : Fault)
    (started : Bool) : Damage :=
  ⟨fault, some fault, started⟩

/-- A value that is delimited but cannot be taken. -/
def Damage.content (fault : Fault) : Damage :=
  ⟨fault, none, true⟩

end Json

/-- A document, or a part of one. -/
inductive Json
  | null
  | boolean (value : Bool)
  | natural (value : Nat)
  /-- A negative whole number, by its size. -/
  | negative (size : Nat)
  | number (value : Float)
  | text (value : String)
  | array (items : List Json)
  | object (members : List (Except Json.Damage String × Json))
  | damaged (damage : Json.Damage)

namespace Json

/-- A record with undamaged names. -/
def record (members : List (String × Json)) : Json :=
  .object (members.map fun member => (.ok member.1, member.2))

/-- Numbers are written with the fewest digits, positionally from `1e-5` to
below `1e16`. A value that is no finite number is written as null. -/
def numberFormat : Decimal.Format where
  positional := some (-5, 16)
  keepsPoint := true
  signsExponent := true
  tie := .toEven
  notNumber := "null"
  infinity := "null"
  negativeInfinity := "null"

end Json
end FlameProfile
