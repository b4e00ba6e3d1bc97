import Mathlib
import FlameProfile.Call.Reconstruction

/-!
# The ledger of one thread

A ledger reconstructs the calls of a single thread and knows nothing of other
threads. It lists the calls in the order of their entries and keeps the places of
the open ones in the list, innermost first. Without parents and copies there is
no arena of records: a call is written at one place and is read nowhere else.
-/

namespace FlameProfile
namespace CallRecord

variable {Time : Type}

/-- The record with further keys around its trace. -/
def within
    (record : CallRecord Time)
    (outer : List EventKey) : CallRecord Time :=
  { record with trace := outer ++ record.trace }

@[simp] theorem within_nil (record : CallRecord Time) :
    record.within [] = record := rfl

/-- Keys around a trace complete no call. -/
@[simp] theorem isComplete_within
    (record : CallRecord Time)
    (outer : List EventKey) :
    (record.within outer).isComplete = record.isComplete := rfl

variable [Arithmetic Time]

/-- Ending a call leaves what is around its trace. -/
theorem settle_within
    (record : CallRecord Time)
    (outer : List EventKey)
    (time : Time)
    (raised : Option String) :
    (record.within outer).settle time raised = (record.settle time raised).within outer := rfl

/-- Charging a call leaves what is around its trace. -/
theorem charge_within
    (record : CallRecord Time)
    (outer : List EventKey)
    (time : Time) :
    (record.within outer).charge time = (record.charge time).within outer := rfl

/-- Time does not depend on what is around a trace. -/
theorem elapsed_within
    (record : CallRecord Time)
    (outer : List EventKey)
    (time : Time) :
    (record.within outer).elapsed time = record.elapsed time := rfl

end CallRecord

/-- The calls of one thread. -/
structure Ledger (Time : Type) where
  /-- The calls with their keys, in the order of their entries. -/
  calls : List (EventKey × CallRecord Time)
  /-- The places of the open calls, innermost first. -/
  opened : List Nat

namespace Ledger

variable {Time : Type}

/-- No call yet. -/
def empty : Ledger Time where
  calls := []
  opened := []

/-- The keys of the calls, in the order of their entries. -/
def keys (ledger : Ledger Time) : List EventKey :=
  ledger.calls.map Prod.fst

/-- There is a key for each call. -/
theorem length_keys (ledger : Ledger Time) : ledger.keys.length = ledger.calls.length :=
  List.length_map _

/-- The keys of the open calls, outermost first. -/
def openKeys (ledger : Ledger Time) : List EventKey :=
  (ledger.opened.filterMap fun place => ledger.keys[place]?).reverse

/-- Change the record at a place. -/
def amend
    (place : Nat)
    (change : CallRecord Time -> CallRecord Time)
    (calls : List (EventKey × CallRecord Time)) : List (EventKey × CallRecord Time) :=
  calls.modify place (Prod.map id change)

/-- Changing a record changes no key. -/
@[simp] theorem keys_amend
    (place : Nat)
    (change : CallRecord Time -> CallRecord Time)
    (calls : List (EventKey × CallRecord Time)) :
    (amend place change calls).map Prod.fst = calls.map Prod.fst := by
  induction calls generalizing place with
  | nil => cases place <;> rfl
  | cons call rest inductionHypothesis =>
      cases place with
      | zero => rfl
      | succ place => exact congrArg (List.cons call.1) (inductionHypothesis place)

variable [Arithmetic Time]

/-- Enter a call. -/
def enter
    (ledger : Ledger Time)
    (event : Event Time) : Ledger Time where
  calls := ledger.calls ++ [(event.key, CallRecord.opened event.time ledger.openKeys)]
  opened := ledger.calls.length :: ledger.opened

/-- Charge the time of a call to the call below it. -/
def chargeBelow
    (below : List Nat)
    (time : Time)
    (calls : List (EventKey × CallRecord Time)) : List (EventKey × CallRecord Time) :=
  match below with
  | [] => calls
  | caller :: _ => amend caller (fun outer => outer.charge time) calls

/-- Leave the innermost open call, if there is one. -/
def leave
    (ledger : Ledger Time)
    (event : Event Time) : Ledger Time :=
  match ledger.opened with
  | [] => ledger
  | ended :: below =>
      match ledger.calls[ended]? with
      | none => ⟨ledger.calls, below⟩
      | some (_, record) =>
          ⟨chargeBelow below (record.elapsed event.time)
            (amend ended
              (fun record => record.settle event.time (Reconstruction.raised event))
              ledger.calls),
            below⟩

/-- An exit without an open call changes nothing. -/
theorem leave_of_opened_eq_nil
    {ledger : Ledger Time}
    (noneOpen : ledger.opened = [])
    (event : Event Time) :
    ledger.leave event = ledger := by
  rw [leave, noneOpen]

/-- Leaving a call settles its record and charges the call below it. -/
theorem leave_of_opened_eq_cons
    {ledger : Ledger Time}
    {ended : Nat}
    {below : List Nat}
    {call : EventKey × CallRecord Time}
    (someOpen : ledger.opened = ended :: below)
    (found : ledger.calls[ended]? = some call)
    (event : Event Time) :
    ledger.leave event =
      ⟨chargeBelow below (call.2.elapsed event.time)
        (amend ended (fun record => record.settle event.time (Reconstruction.raised event))
          ledger.calls),
        below⟩ := by
  rw [leave, someOpen]
  simp only [found]

/-- Charging a call changes no key. -/
theorem keys_chargeBelow
    (below : List Nat)
    (time : Time)
    (calls : List (EventKey × CallRecord Time)) :
    (chargeBelow below time calls).map Prod.fst = calls.map Prod.fst := by
  cases below with
  | nil => rfl
  | cons caller rest => exact keys_amend caller _ calls

/-- An entry adds its key. -/
@[simp] theorem keys_enter
    (ledger : Ledger Time)
    (event : Event Time) :
    (ledger.enter event).keys = ledger.keys ++ [event.key] := by
  rw [enter, keys, keys, List.map_append, List.map_singleton]

/-- An exit leaves the keys as they are. -/
@[simp] theorem keys_leave
    (ledger : Ledger Time)
    (event : Event Time) :
    (ledger.leave event).keys = ledger.keys := by
  cases someOpen : ledger.opened with
  | nil => rw [leave_of_opened_eq_nil someOpen]
  | cons ended below =>
      cases found : ledger.calls[ended]? with
      | none =>
          rw [leave, someOpen]
          simp only [found]
          rfl
      | some call =>
          rw [leave_of_opened_eq_cons someOpen found, keys, keys_chargeBelow, keys_amend, keys]

/-- Take the next event of the thread into account. -/
def step
    (ledger : Ledger Time)
    (event : Event Time) : Ledger Time :=
  if event.kind.isEntry then ledger.enter event else ledger.leave event

/-- The calls of the events of a thread. -/
def ofEvents (own : List (Event Time)) : Ledger Time :=
  own.foldl step empty

@[simp] theorem ofEvents_append_singleton
    (own : List (Event Time))
    (event : Event Time) :
    ofEvents (own ++ [event]) = (ofEvents own).step event := by
  rw [ofEvents, List.foldl_append]
  rfl

/-- The completed calls of a key, in the order of their entries. -/
def callsOf
    (ledger : Ledger Time)
    (key : EventKey) : List (CallRecord Time) :=
  (ledger.calls.filter fun call => call.1 = key && call.2.isComplete).map Prod.snd

/-- The calls of a key, open ones included, in the order of their entries. -/
def recordsOf
    (ledger : Ledger Time)
    (key : EventKey) : List (CallRecord Time) :=
  (ledger.calls.filter fun call => call.1 = key).map Prod.snd

omit [Arithmetic Time] in
/-- The calls of a key are its complete records. -/
theorem callsOf_eq_filter
    (ledger : Ledger Time)
    (key : EventKey) :
    ledger.callsOf key = (ledger.recordsOf key).filter CallRecord.isComplete := by
  rw [callsOf, recordsOf, List.filter_map, List.filter_filter]
  congr 1
  apply List.filter_congr
  intro call _
  exact Bool.and_comm _ _

end Ledger
end FlameProfile
