import FlameProfile.Location

/-!
# Event keys

An event key names a function on a thread. Its text is the text of the location
followed by a colon and the thread, and is read from its end. The function and
the thread may not be empty; the source may be.
-/

namespace FlameProfile

/-- A function on a thread. -/
structure EventKey extends Location where
  thread : String
  deriving DecidableEq

namespace EventKey

/-- Why a text is not an event key. -/
inductive Fault
  | malformed (text : String)
  | emptyFunction
  | emptyThread
  | location (fault : Location.Fault)
  deriving DecidableEq

/-- Wording of a fault. -/
def Fault.message : Fault -> String
  | .malformed text =>
      s!"event key '{text}' must have the form source:function:line:thread_id"
  | .emptyFunction => "event key has an empty function name"
  | .emptyThread => "event key has an empty thread id"
  | .location fault => fault.message

/-- Text of an event key. -/
def write (key : EventKey) : String :=
  key.toLocation.write ++ ":" ++ key.thread

/-- Read an event key. -/
def read (text : String) : Except Fault EventKey :=
  match Text.fieldsFromEnd ':' 3 text.toList with
  | [thread, line, function, source] =>
      if function = [] then
        .error .emptyFunction
      else if thread = [] then
        .error .emptyThread
      else
        match Location.readLine line with
        | .ok line =>
            .ok ⟨⟨String.ofList source, String.ofList function, line⟩, String.ofList thread⟩
        | .error fault => .error (.location fault)
  | _ => .error (.malformed text)

/-- Order by location, then by thread. -/
def order
    (first second : EventKey) : Ordering :=
  (first.toLocation.order second.toLocation).then (compare first.thread second.thread)

end EventKey
end FlameProfile
