import FlameProfile.Decimal.Reader
import FlameProfile.Event.Key
import FlameProfile.Event.Kind
import FlameProfile.Text.Blank

/-!
# Event lines

An event is written on one line, with commas between the kind, the key, the
timestamp and an optional text of an exception. The exception is the rest of
the line and may hold commas. Blanks around a field do not belong to it.
-/

namespace FlameProfile

/-- One event of a log. -/
structure Event (Time : Type) where
  kind : EventKind
  key : EventKey
  time : Time
  exception : Option String
  deriving DecidableEq

/-- What is wrong with an event line. -/
inductive LineFault
  | fieldCount (found : Nat)
  | kind (token : String)
  | key (fault : EventKey.Fault)
  | timestamp (fault : Decimal.Fault)
  | notFinite
  deriving DecidableEq

namespace LineFault

/-- Wording of a fault. -/
def message : LineFault -> String
  | .fieldCount found => s!"expected 3 or 4 fields, found {found}"
  | .kind token => s!"unknown event kind '{token}'"
  | .key fault => fault.message
  | .timestamp fault => s!"invalid timestamp: {fault.message}"
  | .notFinite => "timestamp is not a finite number"

end LineFault

/-- A line that is not an event, with its number and what is wrong with it. -/
structure MalformedEvent where
  line : Nat
  content : String
  fault : LineFault
  deriving DecidableEq

namespace MalformedEvent

/-- Wording of a malformed event. -/
def message (malformed : MalformedEvent) : String :=
  s!"Malformed event on line {malformed.line}: {malformed.fault.message} (\"" ++
    malformed.content ++ "\")"

end MalformedEvent

namespace Event

/-- Thread of an event. -/
def thread
    {Time : Type}
    (event : Event Time) : String :=
  event.key.thread

/-- The text of an exception field that says something. -/
def readException (field : List Char) : Option String :=
  match Text.trim field with
  | [] => none
  | text => some (String.ofList text)

/-- Read a timestamp, which has to be finite. -/
def readTime (field : List Char) : Except LineFault Float :=
  match Decimal.read (Text.trim field) with
  | .error fault => .error (.timestamp fault)
  | .ok time => if time.isFinite then .ok time else .error .notFinite

/-- Read the fields of an event; the first field at fault decides. -/
def readFields
    (kind key time : List Char)
    (exception : Option String) : Except LineFault (Event Float) :=
  match EventKind.ofToken? (String.ofList (Text.trim kind)) with
  | none => .error (.kind (String.ofList (Text.trim kind)))
  | some kind =>
      match EventKey.read (String.ofList (Text.trim key)) with
      | .error fault => .error (.key fault)
      | .ok key =>
          match readTime time with
          | .error fault => .error fault
          | .ok time => .ok ⟨kind, key, time, exception⟩

/-- Read an event, or say what is wrong with the line. -/
def read (line : List Char) : Except LineFault (Event Float) :=
  match Text.fields ',' 3 line with
  | [kind, key, time] => readFields kind key time none
  | [kind, key, time, exception] => readFields kind key time (readException exception)
  | other => .error (.fieldCount other.length)

/-- Read the event on a numbered line. -/
def readLine
    (number : Nat)
    (line : String) : Except MalformedEvent (Event Float) :=
  match read line.toList with
  | .ok event => .ok event
  | .error fault => .error ⟨number, line, fault⟩

end Event
end FlameProfile
