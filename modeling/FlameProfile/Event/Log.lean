import FlameProfile.Event.Line

/-!
# Event logs

A log is a text with one event on a line. Blank lines are skipped but counted,
and carriage returns at the end of a line do not belong to it. The first
malformed line is reported.
-/

namespace FlameProfile
namespace EventLog

/-- Read lines that are numbered from the given number on. -/
def readLines : Nat -> List (List Char) -> Except MalformedEvent (List (Event Float))
  | _, [] => .ok []
  | number, raw :: rest =>
      let line := Text.trimEnd (fun character => character = '\r') raw
      if Text.trim line = [] then
        readLines (number + 1) rest
      else
        match Event.readLine number (String.ofList line) with
        | .error malformed => .error malformed
        | .ok event =>
            match readLines (number + 1) rest with
            | .error malformed => .error malformed
            | .ok events => .ok (event :: events)

/-- Read a log. -/
def read (text : String) : Except MalformedEvent (List (Event Float)) :=
  readLines 1 (Text.pieces '\n' text.toList)

end EventLog
end FlameProfile
