import Mathlib
import FlameProfile.Profile.Document
import FlameProfile.Proofs.Arithmetic.Overflow
import FlameProfile.Proofs.Call.Accounting
import FlameProfile.Proofs.Event.Log
import FlameProfile.Proofs.FirstSeen
import FlameProfile.Proofs.Json.Number

/-!
# When measured times are usable numbers

All times of a log are finite, but the time between two of them may be infinite,
and so may the time that the callees of a call took together. What is left of the
one after the other was taken away is then no number, and no bound applies to it.
A call whose own time overflows in neither way has measures between the least
time and the greatest number. This holds of every call of a log without negative
times, and its resources can be written as numbers.
-/

namespace FlameProfile

/-- The measures of a call are finite and in order. -/
structure CallRecord.IsUsable (record : CallRecord Float) : Prop where
  least : CallRecord.leastTime ≤ record.exclusive
  ordered : record.exclusive ≤ record.inclusive
  exclusiveFinite : record.exclusive.isFinite = true
  inclusiveFinite : record.inclusive.isFinite = true

theorem CallRecord.isUsable_within
    {record : CallRecord Float}
    {outer : List EventKey} :
    (record.within outer).IsUsable ↔ record.IsUsable :=
  ⟨fun usable => ⟨usable.least, usable.ordered, usable.exclusiveFinite, usable.inclusiveFinite⟩,
    fun usable => ⟨usable.least, usable.ordered, usable.exclusiveFinite, usable.inclusiveFinite⟩⟩

/-! ## Times of a log -/

/-- Every time of a log that can be read is finite. -/
theorem EventLog.isFinite_of_read
    {text : String}
    {events : List (Event Float)}
    (accepted : read text = .ok events) :
    ∀ event ∈ events, event.time.isFinite = true := by
  intro event member
  obtain ⟨_, _, _, _, _, _, isLine⟩ := exists_isLineOf_of_read accepted event member
  exact isLine.finite

/-! ## Measures of brackets -/

namespace Bracket

variable {own : List (Event Float)} {bracket : Bracket Float}

theorem isFinite_leastTime : (CallRecord.leastTime : Float).isFinite = true := by
  decide +kernel

theorem isFinite_times
    (finite : ∀ event ∈ own, event.time.isFinite = true)
    (member : bracket ∈ ofLog own) :
    bracket.entry.1.time.isFinite = true ∧ bracket.exit.1.time.isFinite = true := by
  obtain ⟨entry, exit⟩ := placed_of_mem_ofLog member
  exact ⟨finite _ (List.fst_mem_of_mem_zipIdx entry), finite _ (List.fst_mem_of_mem_zipIdx exit)⟩

/-- The time between two events is a number. -/
theorem isNaN_elapsed
    (finite : ∀ event ∈ own, event.time.isFinite = true)
    (member : bracket ∈ ofLog own) :
    bracket.elapsed.isNaN = false := by
  obtain ⟨entry, exit⟩ := isFinite_times finite member
  exact Floating.isNaN_sub exit (Floating.isNaN_of_isFinite entry)

/-- The measures of a call are usable exactly if its time does not overflow and
the time that its callees leave is a number. -/
theorem isUsable_record_iff
    (number : bracket.elapsed.isNaN = false) :
    (record own bracket).IsUsable ↔
      bracket.elapsed < Float.inf ∧
        (bracket.elapsed - sum (inside own bracket)).isNaN = false := by
  have leastNumber := Floating.isNaN_of_isFinite isFinite_leastTime
  have range := Floating.le_larger number leastNumber
  have inclusiveFinite := Floating.isFinite_larger_iff number isFinite_leastTime
  constructor
  · intro usable
    refine ⟨inclusiveFinite.mp usable.inclusiveFinite, ?_⟩
    by_contra noNumber
    rw [Bool.not_eq_false] at noNumber
    have unmoved : (record own bracket).exclusive =
        bracket.elapsed - sum (inside own bracket) := Floating.clamp_of_isNaN noNumber
    have finite := Floating.isNaN_of_isFinite usable.exclusiveFinite
    rw [unmoved, noNumber] at finite
    exact absurd finite (by decide)
  · rintro ⟨below, leftNumber⟩
    have finite := inclusiveFinite.mpr below
    obtain ⟨least, ordered⟩ := Floating.clamp_mem range leftNumber
    exact ⟨least, ordered, Floating.isFinite_of_between isFinite_leastTime finite least ordered,
      finite⟩

/-- Finite times add up to a number. -/
theorem isNaN_sum
    (brackets : List (Bracket Float))
    (finite : ∀ bracket ∈ brackets, bracket.elapsed.isFinite = true) :
    (sum brackets).isNaN = false := by
  induction brackets using List.reverseRecOn with
  | nil => decide +kernel
  | append_singleton front last inductionHypothesis =>
      rw [sum, List.foldl_append]
      exact Floating.isNaN_add
        (inductionHypothesis fun bracket member => finite bracket (List.mem_append_left _ member))
        (finite last (List.mem_append_right front List.mem_cons_self))

/-- Where no time between two events overflows, all measures are usable. -/
theorem isUsable_record
    (finite : ∀ bracket ∈ ofLog own, bracket.elapsed.isFinite = true)
    (member : bracket ∈ ofLog own) :
    (record own bracket).IsUsable := by
  have elapsed := finite bracket member
  have nested : (sum (inside own bracket)).isNaN = false :=
    isNaN_sum _ fun inner direct => finite inner (mem_inside.mp direct).1
  exact (isUsable_record_iff (Floating.isNaN_of_isFinite elapsed)).mpr
    ⟨(Floating.isFinite_iff.mp elapsed).2, Floating.isNaN_sub elapsed nested⟩

theorem isFinite_elapsed
    (finite : ∀ event ∈ own, event.time.isFinite = true)
    (nonneg : ∀ event ∈ own, 0 ≤ event.time)
    (member : bracket ∈ ofLog own) :
    bracket.elapsed.isFinite = true := by
  obtain ⟨entry, exit⟩ := isFinite_times finite member
  obtain ⟨entryPlaced, exitPlaced⟩ := placed_of_mem_ofLog member
  exact Floating.isFinite_sub exit entry (nonneg _ (List.fst_mem_of_mem_zipIdx exitPlaced))
    (nonneg _ (List.fst_mem_of_mem_zipIdx entryPlaced))

end Bracket

/-! ## Measures of whole logs -/

namespace Reconstruction

/-- Of a log that can be read, the measures of a completed call are usable exactly
if its time does not overflow and the time that its callees leave is a number. In
a log without negative times all of them are, and every resource has a finite
amount, no less than the least time, that is written as a number. -/
theorem isUsable_of_read
    {text : String}
    {events : List (Event Float)}
    (accepted : EventLog.read text = .ok events)
    (rule : ParentRule Float) :
    (∀ key, ∀ call ∈ (ofEvents rule events).callsOf key,
      ∃ finish, call.finish = some finish ∧
        (call.IsUsable ↔
          finish - call.start < Float.inf ∧
            (finish - call.start - call.nested).isNaN = false)) ∧
    ((∀ event ∈ events, 0 ≤ event.time) →
      (∀ key, ∀ call ∈ (ofEvents rule events).callsOf key, call.IsUsable) ∧
      ∀ resource ∈ (ofEvents rule events).resources,
        CallRecord.leastTime ≤ resource.amount ∧ resource.amount.isFinite = true ∧
          (Json.number resource.amount).WritesNumber) := by
  have finite := EventLog.isFinite_of_read accepted
  have ownFinite : ∀ thread, ∀ event ∈ events.filter (fun event => event.thread = thread),
      event.time.isFinite = true :=
    fun thread event member => finite event (List.mem_of_mem_filter member)
  refine ⟨?_, ?_⟩
  · intro key call member
    obtain ⟨bracket, inLog, inherited, rfl⟩ := exists_bracket member
    refine ⟨bracket.exit.1.time, rfl, ?_⟩
    exact CallRecord.isUsable_within.trans
      (Bracket.isUsable_record_iff (Bracket.isNaN_elapsed (ownFinite key.thread) inLog))
  · intro nonneg
    have usable : ∀ key, ∀ call ∈ (ofEvents rule events).callsOf key, call.IsUsable := by
      intro key call member
      obtain ⟨bracket, inLog, inherited, rfl⟩ := exists_bracket member
      exact CallRecord.isUsable_within.mpr (Bracket.isUsable_record (fun other otherMember =>
        Bracket.isFinite_elapsed (ownFinite key.thread)
          (fun event own => nonneg event (List.mem_of_mem_filter own)) otherMember) inLog)
    refine ⟨usable, ?_⟩
    intro resource member
    obtain ⟨⟨key, record⟩, completed, rfl⟩ := List.mem_map.mp member
    have isUsable := usable key record (mem_completed_iff.mp completed)
    exact ⟨isUsable.least, isUsable.exclusiveFinite,
      (Json.writesNumber_iff _).mpr isUsable.exclusiveFinite⟩

/-- A log of a call with one callee, on a clock that starts at zero. -/
def steadyText : String :=
  "PY_START,a.py:f:1:1,0\nPY_START,a.py:g:2:1,0.25\nPY_RETURN,a.py:g:2:1,0.5\n" ++
    "PY_RETURN,a.py:f:1:1,2\n"

def steadyLog : List (Event Float) :=
  [ ⟨.started, ⟨⟨"a.py", "f", 1⟩, "1"⟩, 0.0, none⟩,
    ⟨.started, ⟨⟨"a.py", "g", 2⟩, "1"⟩, 0.25, none⟩,
    ⟨.returned, ⟨⟨"a.py", "g", 2⟩, "1"⟩, 0.5, none⟩,
    ⟨.returned, ⟨⟨"a.py", "f", 1⟩, "1"⟩, 2, none⟩ ]

theorem isUsable_of_read_steadyText :
    EventLog.read steadyText = .ok steadyLog ∧ (∀ event ∈ steadyLog, 0 ≤ event.time) ∧
    (∀ key, ∀ call ∈ (ofEvents ParentStrategy.nearest.rule steadyLog).callsOf key,
      call.IsUsable) ∧
    ∀ resource ∈ (ofEvents ParentStrategy.nearest.rule steadyLog).resources,
      CallRecord.leastTime ≤ resource.amount ∧ resource.amount.isFinite = true ∧
        (Json.number resource.amount).WritesNumber := by
  have accepted : EventLog.read steadyText = .ok steadyLog := by decide +kernel
  have nonneg : ∀ event ∈ steadyLog, 0 ≤ event.time := by decide +kernel
  exact ⟨accepted, nonneg, (isUsable_of_read accepted ParentStrategy.nearest.rule).2 nonneg⟩

/-- A log of a call whose two callees take so long together, and it with them, that
both times are infinite. -/
def overflowingText : String :=
  "PY_START,a.py:f:1:1,-1e308\nPY_START,a.py:g:2:1,-1e308\nPY_RETURN,a.py:g:2:1,0\n" ++
    "PY_START,a.py:g:2:1,0\nPY_RETURN,a.py:g:2:1,1e308\nPY_RETURN,a.py:f:1:1,1e308\n"

def overflowingLog : List (Event Float) :=
  [ ⟨.started, ⟨⟨"a.py", "f", 1⟩, "1"⟩, -1e308, none⟩,
    ⟨.started, ⟨⟨"a.py", "g", 2⟩, "1"⟩, -1e308, none⟩,
    ⟨.returned, ⟨⟨"a.py", "g", 2⟩, "1"⟩, 0.0, none⟩,
    ⟨.started, ⟨⟨"a.py", "g", 2⟩, "1"⟩, 0.0, none⟩,
    ⟨.returned, ⟨⟨"a.py", "g", 2⟩, "1"⟩, 1e308, none⟩,
    ⟨.returned, ⟨⟨"a.py", "f", 1⟩, "1"⟩, 1e308, none⟩ ]

/-- A log that can be read has a call whose exclusive time is no number, and so a
resource that is not written as one. -/
theorem exists_not_isUsable :
    EventLog.read overflowingText = .ok overflowingLog ∧
    (∃ key, ∃ call ∈ (ofEvents ParentStrategy.nearest.rule overflowingLog).callsOf key,
      ¬ call.IsUsable) ∧
    ∃ resource ∈ (ofEvents ParentStrategy.nearest.rule overflowingLog).resources,
      ¬ (Json.number resource.amount).WritesNumber := by
  have calls : ((ofEvents ParentStrategy.nearest.rule overflowingLog).callsOf
      ⟨⟨"a.py", "f", 1⟩, "1"⟩).map (fun call => call.exclusive.isFinite) = [false] := by
    decide +kernel
  have amounts : (ofEvents ParentStrategy.nearest.rule overflowingLog).resources.map
      (fun resource => resource.amount.isFinite) = [false, true, true] := by
    decide +kernel
  refine ⟨by decide +kernel, ⟨⟨⟨"a.py", "f", 1⟩, "1"⟩, ?_⟩, ?_⟩
  · obtain ⟨call, member, infinite⟩ := List.mem_map.mp (calls ▸ List.mem_cons_self)
    refine ⟨call, member, fun usable => ?_⟩
    rw [usable.exclusiveFinite] at infinite
    exact absurd infinite (by decide)
  · obtain ⟨resource, member, infinite⟩ := List.mem_map.mp (amounts ▸ List.mem_cons_self)
    refine ⟨resource, member, ?_⟩
    rw [Json.writesNumber_iff, infinite]
    exact Bool.false_ne_true

end Reconstruction

end FlameProfile
