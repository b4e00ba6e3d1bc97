import FlameProfile.Call.ParentStrategy
import FlameProfile.Call.Record
import FlameProfile.FirstSeen
import FlameProfile.Sorting

/-!
# Reconstruction of calls

Every thread has a stack of open calls. An entry event opens a call on the
stack of its thread; an exit event ends the innermost open call, whatever
function it names, and charges the elapsed time to the call left on top. An
exit without an open call is counted and otherwise ignored.

A thread that enters its first call inherits the stack of its parent. The
inherited calls are copies: ending one never touches the record of the parent,
and a copy is no call of its own in any result.

Records are numbered in the order in which they are made. The calls of a key
are listed by number, and keys appear in the order of their first calls.
-/

namespace FlameProfile

/-- An open call on a stack, with the number of its record. -/
structure OpenCall where
  key : EventKey
  record : Nat
  deriving DecidableEq

/-- What is known of a thread that has entered a call. -/
structure ThreadState where
  /-- The thread whose stack was inherited. -/
  parent : Option String
  /-- Keys of the inherited stack, outermost first. -/
  inherited : List EventKey
  /-- The open calls, innermost first. -/
  stack : List OpenCall
  deriving DecidableEq

namespace ThreadState

/-- Keys on the stack, outermost first. -/
def keys (state : ThreadState) : List EventKey :=
  (state.stack.map OpenCall.key).reverse

/-- Number of open calls. -/
def depth (state : ThreadState) : Nat :=
  state.stack.length

end ThreadState

/-- The calls found in the events seen so far. -/
structure Reconstruction (Time : Type) where
  /-- The events seen, latest first. -/
  history : List (Event Time)
  /-- All records, by number. -/
  records : List (CallRecord Time)
  /-- Numbers of the records of each key, in the order of their starts. -/
  calls : FirstSeen EventKey (List Nat)
  threads : FirstSeen String ThreadState
  /-- Number of calls of each function name, on any thread. -/
  callCounts : FirstSeen String Nat
  /-- Number of exits that found no open call. -/
  unmatched : Nat

namespace Reconstruction

variable {Time : Type}

/-- Nothing seen yet. -/
def empty : Reconstruction Time where
  history := []
  records := []
  calls := []
  threads := []
  callCounts := []
  unmatched := 0

/-! ## Threads -/

/-- State of a thread, once it has entered a call. -/
def thread?
    (reconstruction : Reconstruction Time)
    (thread : String) : Option ThreadState :=
  FirstSeen.find? thread reconstruction.threads

/-- Copy the records of open calls, given outermost first, behind the records
there are. The open calls of the copies come innermost first. -/
def copyCalls
    (records : List (CallRecord Time))
    (copied : List OpenCall) : List OpenCall -> List OpenCall × List (CallRecord Time)
  | [] => (copied, records)
  | call :: inner =>
      match records[call.record]? with
      | some record =>
          copyCalls (records ++ [record]) (⟨call.key, records.length⟩ :: copied) inner
      | none => copyCalls records copied inner

/-- State of a thread that enters its first call, and the records with the
copies that it inherits. -/
def spawn
    (rule : ParentRule Time)
    (reconstruction : Reconstruction Time)
    (thread : String) : ThreadState × List (CallRecord Time) :=
  let parent := rule thread reconstruction.history
  let stack := ((parent.bind reconstruction.thread?).map ThreadState.stack).getD []
  let copies := copyCalls reconstruction.records [] stack.reverse
  (⟨parent, (copies.1.map OpenCall.key).reverse, copies.1⟩, copies.2)

/-- State of a thread that enters a call, and the records there are then. -/
def threadAtEntry
    (rule : ParentRule Time)
    (reconstruction : Reconstruction Time)
    (thread : String) : ThreadState × List (CallRecord Time) :=
  match reconstruction.thread? thread with
  | some state => (state, reconstruction.records)
  | none => reconstruction.spawn rule thread

/-! ## Events -/

variable [Arithmetic Time]

/-- Open a call on the stack of its thread. -/
def enter
    (rule : ParentRule Time)
    (reconstruction : Reconstruction Time)
    (event : Event Time) : Reconstruction Time :=
  let (state, records) := reconstruction.threadAtEntry rule event.thread
  let pushed := { state with stack := ⟨event.key, records.length⟩ :: state.stack }
  { reconstruction with
    records := records ++ [CallRecord.opened event.time state.keys]
    calls :=
      FirstSeen.record event.key [records.length] (fun numbers => numbers ++ [records.length])
        reconstruction.calls
    threads :=
      FirstSeen.record event.thread pushed (fun _ => pushed) reconstruction.threads
    callCounts :=
      FirstSeen.record event.key.function 1 (fun count => count + 1) reconstruction.callCounts }

/-- The text by which an exit event marks the call that it ends. -/
def raised (event : Event Time) : Option String :=
  if event.kind.isException then
    some (event.exception.getD event.kind.token)
  else
    none

/-- End the call with a record, and charge its time to the call below it. -/
def settle
    (records : List (CallRecord Time))
    (event : Event Time)
    (ended : OpenCall)
    (below : List OpenCall) : List (CallRecord Time) :=
  match records[ended.record]? with
  | none => records
  | some record =>
      let settled :=
        records.modify ended.record fun record => record.settle event.time (raised event)
      match below with
      | [] => settled
      | caller :: _ =>
          settled.modify caller.record fun outer => outer.charge (record.elapsed event.time)

/-- End the innermost open call of a thread, if it has one. -/
def leave
    (reconstruction : Reconstruction Time)
    (event : Event Time) : Reconstruction Time :=
  match reconstruction.thread? event.thread with
  | some { parent, inherited, stack := ended :: below } =>
      let popped : ThreadState := ⟨parent, inherited, below⟩
      { reconstruction with
        records := settle reconstruction.records event ended below
        threads :=
          FirstSeen.record event.thread popped (fun _ => popped) reconstruction.threads }
  | _ => { reconstruction with unmatched := reconstruction.unmatched + 1 }

/-- Take the next event into account. -/
def step
    (rule : ParentRule Time)
    (reconstruction : Reconstruction Time)
    (event : Event Time) : Reconstruction Time :=
  let next :=
    if event.kind.isEntry then
      reconstruction.enter rule event
    else
      reconstruction.leave event
  { next with history := event :: reconstruction.history }

/-- Reconstruct the calls of a log. -/
def ofEvents
    (rule : ParentRule Time)
    (events : List (Event Time)) : Reconstruction Time :=
  events.foldl (step rule) empty

/-- The reconstructions after each of the given events. -/
def stages
    (rule : ParentRule Time)
    (reconstruction : Reconstruction Time) : List (Event Time) -> List (Reconstruction Time)
  | [] => []
  | event :: rest =>
      reconstruction.step rule event :: stages rule (reconstruction.step rule event) rest

/-! ## Results -/

/-- Completed calls with the given numbers. -/
def completedOf
    (reconstruction : Reconstruction Time)
    (numbers : List Nat) : List (CallRecord Time) :=
  (numbers.filterMap fun number => reconstruction.records[number]?).filter
    CallRecord.isComplete

/-- Completed calls of a key, in the order of their starts. -/
def callsOf
    (reconstruction : Reconstruction Time)
    (key : EventKey) : List (CallRecord Time) :=
  reconstruction.completedOf ((FirstSeen.find? key reconstruction.calls).getD [])

/-- All completed calls with their keys, key by key. -/
def completed (reconstruction : Reconstruction Time) : List (EventKey × CallRecord Time) :=
  reconstruction.calls.flatMap fun entry =>
    (reconstruction.completedOf entry.2).map fun record => (entry.1, record)

/-- Keys that opened a call, in the order of their first calls. -/
def keys (reconstruction : Reconstruction Time) : List EventKey :=
  FirstSeen.keys reconstruction.calls

/-- Number of calls of a function name, open ones included. -/
def callCount
    (reconstruction : Reconstruction Time)
    (function : String) : Nat :=
  (FirstSeen.find? function reconstruction.callCounts).getD 0

/-- Number of completed calls. -/
def completedCount (reconstruction : Reconstruction Time) : Nat :=
  reconstruction.completed.length

/-- Number of calls that are still open. -/
def openCount (reconstruction : Reconstruction Time) : Nat :=
  (reconstruction.calls.flatMap fun entry =>
    (entry.2.filterMap fun number => reconstruction.records[number]?).filter
      fun record => !record.isComplete).length

/-- The threads with their states, ordered by the text of the thread. -/
def threadsInOrder (reconstruction : Reconstruction Time) : List (String × ThreadState) :=
  Sorting.sort (fun first second => compare first.1 second.1) reconstruction.threads

end Reconstruction
end FlameProfile
