import FlameProfile.Arithmetic
import FlameProfile.Event.Key

/-!
# Call records

A record tells what is known of one call: when it started, what was on the
stack then, how much time its direct callees took and, once the call is over,
when it ended and which times it is charged.
-/

namespace FlameProfile

/-- One call of a function. -/
structure CallRecord (Time : Type) where
  start : Time
  finish : Option Time
  /-- Keys on the stack when the call started, outermost first. -/
  trace : List EventKey
  /-- Time of the completed direct callees. -/
  nested : Time
  exclusive : Time
  inclusive : Time
  exceptions : List String
  deriving DecidableEq

namespace CallRecord

variable {Time : Type} [Arithmetic Time]

/-- The least time that a completed call is charged. -/
def leastTime : Time := 1e-9

/-- The record of a call that starts. -/
def opened
    (start : Time)
    (trace : List EventKey) : CallRecord Time where
  start := start
  finish := none
  trace := trace
  nested := 0
  exclusive := 0
  inclusive := 0
  exceptions := []

/-- Whether the call is over. -/
def isComplete (record : CallRecord Time) : Bool :=
  record.finish.isSome

/-- Time from the start of a call to a later moment. -/
def elapsed
    (record : CallRecord Time)
    (time : Time) : Time :=
  time - record.start

/-- End a call. Its inclusive time is the time elapsed, its exclusive time the
part that no direct callee took; neither falls below the least time, and the
exclusive time does not exceed the inclusive one. -/
def settle
    (record : CallRecord Time)
    (time : Time)
    (raised : Option String) : CallRecord Time :=
  let inclusive := Arithmetic.larger (record.elapsed time) leastTime
  { record with
    finish := some time
    inclusive := inclusive
    exclusive := Arithmetic.clamp leastTime inclusive (record.elapsed time - record.nested)
    exceptions := record.exceptions ++ raised.toList }

/-- Add the time of a completed direct callee. -/
def charge
    (record : CallRecord Time)
    (time : Time) : CallRecord Time :=
  { record with nested := record.nested + time }

@[simp] theorem isComplete_opened
    (start : Time)
    (trace : List EventKey) :
    (opened start trace).isComplete = false := rfl

@[simp] theorem isComplete_settle
    (record : CallRecord Time)
    (time : Time)
    (raised : Option String) :
    (record.settle time raised).isComplete = true := rfl

@[simp] theorem isComplete_charge
    (record : CallRecord Time)
    (time : Time) :
    (record.charge time).isComplete = record.isComplete := rfl

end CallRecord
end FlameProfile
