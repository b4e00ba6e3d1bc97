import Mathlib
import FlameProfile.Proofs.Call.Effect
import FlameProfile.Proofs.Call.Ledger

/-!
# Calls of a ledger in the arena of records

The records of all threads and their copies share one arena. A list of numbers
tracks the calls of a ledger if the record with each number is the call, up to
inherited keys around its trace. Tracking survives whatever happens to records
with other numbers, and follows what happens to a record with one of its own.
-/

namespace FlameProfile
namespace Reconstruction

variable {Time : Type}

/-- The record with a number is a call of a ledger, up to the first of the
inherited keys around its trace. -/
def Tracks
    (records : List (CallRecord Time))
    (inherited : List EventKey)
    (number : Nat)
    (call : EventKey × CallRecord Time) : Prop :=
  ∃ outer, outer <+: inherited ∧ records[number]? = some (call.2.within outer)

section Tracks

variable {records : List (CallRecord Time)} {inherited : List EventKey} {number : Nat}
  {call : EventKey × CallRecord Time}

/-- A number that tracks a call is one of a record. -/
theorem Tracks.lt_length
    (tracks : Tracks records inherited number call) :
    number < records.length := by
  obtain ⟨outer, _, found⟩ := tracks
  exact (List.getElem?_eq_some_iff.mp found).1

/-- More records change nothing. -/
theorem Tracks.append
    (tracks : Tracks records inherited number call)
    (more : List (CallRecord Time)) :
    Tracks (records ++ more) inherited number call := by
  have inside := tracks.lt_length
  obtain ⟨outer, starts, found⟩ := tracks
  exact ⟨outer, starts, by rw [List.getElem?_append_left inside, found]⟩

/-- More inherited keys still have those around the trace as their beginning. -/
theorem Tracks.inherit
    {longer : List EventKey}
    (tracks : Tracks records inherited number call)
    (starts : inherited <+: longer) :
    Tracks records longer number call := by
  obtain ⟨outer, outerStarts, found⟩ := tracks
  exact ⟨outer, outerStarts.trans starts, found⟩

/-- A change of another record keeps a number on its call. -/
theorem Tracks.modify_other
    {changed : Nat}
    (tracks : Tracks records inherited number call)
    (different : number ≠ changed)
    (change : CallRecord Time -> CallRecord Time) :
    Tracks (records.modify changed change) inherited number call := by
  obtain ⟨outer, starts, found⟩ := tracks
  exact ⟨outer, starts, by rw [List.getElem?_modify_ne change records different.symm, found]⟩

/-- A change of the record is followed by the call, whatever is around its trace. -/
theorem Tracks.modify
    (tracks : Tracks records inherited number call)
    {change : CallRecord Time -> CallRecord Time}
    (commutes : ∀ record outer, change (record.within outer) = (change record).within outer) :
    Tracks (records.modify number change) inherited number (Prod.map id change call) := by
  obtain ⟨outer, starts, found⟩ := tracks
  refine ⟨outer, starts, ?_⟩
  rw [List.getElem?_modify_eq, found]
  exact congrArg some (commutes call.2 outer)

end Tracks

/-! ## Tracking whole ledgers -/

variable {records : List (CallRecord Time)} {inherited : List EventKey} {numbers : List Nat}
  {calls : List (EventKey × CallRecord Time)}

/-- The number at a place tracks the call at that place. -/
theorem tracks_at
    (tracks : List.Forall₂ (Tracks records inherited) numbers calls)
    {place number : Nat}
    (found : numbers[place]? = some number) :
    ∃ call, calls[place]? = some call ∧ Tracks records inherited number call := by
  induction tracks generalizing place with
  | nil => exact absurd found (by simp)
  | cons head tail inductionHypothesis =>
      cases place with
      | zero =>
          rw [List.getElem?_cons_zero, Option.some.injEq] at found
          subst found
          exact ⟨_, rfl, head⟩
      | succ place => exact inductionHypothesis found

/-- All numbers that track calls are those of records. -/
theorem lt_length_of_mem
    (tracks : List.Forall₂ (Tracks records inherited) numbers calls)
    {number : Nat}
    (member : number ∈ numbers) :
    number < records.length := by
  obtain ⟨place, found⟩ := List.mem_iff_getElem?.mp member
  obtain ⟨call, _, tracked⟩ := tracks_at tracks found
  exact tracked.lt_length

/-- A record with a foreign number may change. -/
theorem tracks_modify_other
    (tracks : List.Forall₂ (Tracks records inherited) numbers calls)
    {changed : Nat}
    (foreign : changed ∉ numbers)
    (change : CallRecord Time -> CallRecord Time) :
    List.Forall₂ (Tracks (records.modify changed change) inherited) numbers calls := by
  have apart : List.Forall₂
      (fun number call => number ≠ changed ∧ Tracks records inherited number call)
      numbers calls := by
    rw [List.forall₂_and_left]
    refine ⟨?_, tracks⟩
    rintro number member rfl
    exact foreign member
  apply apart.imp
  rintro number call ⟨different, tracked⟩
  exact tracked.modify_other different change

/-- What happens to the record of a call happens to the call. -/
theorem tracks_amend
    (tracks : List.Forall₂ (Tracks records inherited) numbers calls)
    (nodup : numbers.Nodup)
    {place number : Nat}
    (found : numbers[place]? = some number)
    {change : CallRecord Time -> CallRecord Time}
    (commutes : ∀ record outer, change (record.within outer) = (change record).within outer) :
    List.Forall₂ (Tracks (records.modify number change) inherited) numbers
      (Ledger.amend place change calls) := by
  induction tracks generalizing place with
  | nil => exact absurd found (by simp)
  | cons head tail inductionHypothesis =>
      obtain ⟨notInTail, tailNodup⟩ := List.nodup_cons.mp nodup
      cases place with
      | zero =>
          rw [List.getElem?_cons_zero, Option.some.injEq] at found
          subst found
          exact List.Forall₂.cons (head.modify commutes)
            (tracks_modify_other tail notInTail change)
      | succ place =>
          rw [List.getElem?_cons_succ] at found
          have inTail := List.mem_of_getElem? found
          refine List.Forall₂.cons (head.modify_other ?_ change)
            (inductionHypothesis tailNodup found)
          rintro rfl
          exact notInTail inTail

/-- A new record at the end is tracked by its number. -/
theorem tracks_append_singleton
    (tracks : List.Forall₂ (Tracks records inherited) numbers calls)
    (key : EventKey)
    (record : CallRecord Time)
    {outer : List EventKey}
    (starts : outer <+: inherited) :
    List.Forall₂ (Tracks (records ++ [record.within outer]) inherited)
      (numbers ++ [records.length]) (calls ++ [(key, record)]) := by
  refine List.rel_append (tracks.imp fun number call tracked => tracked.append _) ?_
  refine List.Forall₂.cons ⟨outer, starts, ?_⟩ List.Forall₂.nil
  exact List.getElem?_concat_length

/-! ## Settling -/

variable [Arithmetic Time]

/-- Charge the time of a call to the record of the call below it. -/
def chargeCaller
    (below : List OpenCall)
    (time : Time)
    (records : List (CallRecord Time)) : List (CallRecord Time) :=
  match below with
  | [] => records
  | caller :: _ => records.modify caller.record fun outer => outer.charge time

/-- Ending a call changes its record and the one below it. -/
theorem settle_eq
    {event : Event Time}
    {ended : OpenCall}
    {below : List OpenCall}
    {record : CallRecord Time}
    (found : records[ended.record]? = some record) :
    settle records event ended below =
      chargeCaller below (record.elapsed event.time)
        (records.modify ended.record fun record => record.settle event.time (raised event)) := by
  rw [settle, found]
  cases below with
  | nil => rfl
  | cons caller rest => rfl

/-- Ending a call adds no record. -/
@[simp] theorem length_settle
    (records : List (CallRecord Time))
    (event : Event Time)
    (ended : OpenCall)
    (below : List OpenCall) :
    (settle records event ended below).length = records.length := by
  unfold settle
  split
  · rfl
  · cases below with
    | nil => exact List.length_modify _ _ _
    | cons caller rest => exact (List.length_modify _ _ _).trans (List.length_modify _ _ _)

/-- Charging a record of another thread keeps all numbers on their calls. -/
theorem tracks_chargeCaller_foreign
    (tracks : List.Forall₂ (Tracks records inherited) numbers calls)
    {below : List OpenCall}
    (foreign : ∀ call ∈ below, call.record ∉ numbers)
    (time : Time) :
    List.Forall₂ (Tracks (chargeCaller below time records) inherited) numbers calls := by
  cases below with
  | nil => exact tracks
  | cons caller rest =>
      exact tracks_modify_other tracks (foreign caller List.mem_cons_self) _

/-- Settling among foreign records changes no call of the ledger. -/
theorem tracks_settle_foreign
    (tracks : List.Forall₂ (Tracks records inherited) numbers calls)
    {ended : OpenCall}
    {below : List OpenCall}
    (foreign : ∀ call ∈ ended :: below, call.record ∉ numbers)
    (event : Event Time) :
    List.Forall₂ (Tracks (settle records event ended below) inherited) numbers calls := by
  obtain ⟨endedForeign, belowForeign⟩ := List.forall_mem_cons.mp foreign
  cases found : records[ended.record]? with
  | none =>
      rw [settle, found]
      exact tracks
  | some record =>
      rw [settle_eq found]
      exact tracks_chargeCaller_foreign (tracks_modify_other tracks endedForeign _) belowForeign _

end Reconstruction
end FlameProfile
