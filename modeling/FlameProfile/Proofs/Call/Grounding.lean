import Mathlib
import FlameProfile.Proofs.Call.Accounting

/-!
# Callers of calls are calls

Every frame of a stack belongs to a call that was entered on the frames below it,
whether the thread of the stack has entered it or has inherited it. So does every
frame of a trace, since a trace is the stack on which its call was entered. Where no
call of a log is left open, the callers of a completed call are completed calls, and
the trace of each of them is the beginning of the trace below it.
-/

namespace FlameProfile
namespace Reconstruction

variable {Time : Type}

/-- The keys of the open calls of a thread, outermost first. -/
def openKeysOf
    (reconstruction : Reconstruction Time)
    (thread : String) : List EventKey :=
  ((reconstruction.stackOf thread).map OpenCall.key).reverse

/-- A call of a key was entered with a trace. -/
def HasCall
    (reconstruction : Reconstruction Time)
    (key : EventKey)
    (trace : List EventKey) : Prop :=
  ∃ number ∈ reconstruction.numbersOf key,
    (reconstruction.records.map CallRecord.trace)[number]? = some trace

/-- Each of some keys, outermost first, is that of a call which was entered on the keys
before it. -/
def Grounds
    (reconstruction : Reconstruction Time)
    (keys : List EventKey) : Prop :=
  ∀ trace key, trace ++ [key] <+: keys → reconstruction.HasCall key trace

section Grounds

variable {reconstruction later : Reconstruction Time} {keys shorter trace : List EventKey}
  {key : EventKey}

/-- No keys have nothing to be grounded. -/
theorem grounds_nil : reconstruction.Grounds [] := by
  intro trace key starts
  exact absurd (List.prefix_nil.mp starts) (List.append_ne_nil_of_right_ne_nil _ (by simp))

/-- The outer ones of grounded keys are grounded. -/
theorem Grounds.of_isPrefix
    (grounds : reconstruction.Grounds keys)
    (starts : shorter <+: keys) :
    reconstruction.Grounds shorter :=
  fun trace key begins => grounds trace key (begins.trans starts)

/-- Below a call the keys of its trace are grounded, and above them its own. -/
theorem Grounds.append_singleton
    (grounds : reconstruction.Grounds trace)
    (called : reconstruction.HasCall key trace) :
    reconstruction.Grounds (trace ++ [key]) := by
  intro other last starts
  rcases List.prefix_concat_iff.mp starts with whole | inTrace
  · obtain ⟨rfl, sameKey⟩ := List.append_inj' whole rfl
    obtain rfl : last = key := List.singleton_inj.mp sameKey
    exact called
  · exact grounds other last inTrace

/-- Grounded keys stay so as long as no call is forgotten. -/
theorem Grounds.mono
    (grounds : reconstruction.Grounds keys)
    (kept : ∀ key trace, reconstruction.HasCall key trace → later.HasCall key trace) :
    later.Grounds keys :=
  fun trace key starts => kept key trace (grounds trace key starts)

/-- A key with a call is among the keys that are known. -/
theorem HasCall.mem_keys (called : reconstruction.HasCall key trace) :
    key ∈ reconstruction.keys := by
  obtain ⟨number, isNumber, -⟩ := called
  obtain ⟨numbers, found, -⟩ := mem_numbersOf_iff.mp isNumber
  exact FirstSeen.mem_keys_of_find?_eq_some found

/-- Grounded keys are keys of calls. -/
theorem Grounds.mem_keys
    (grounds : reconstruction.Grounds keys)
    (member : key ∈ keys) :
    key ∈ reconstruction.keys := by
  obtain ⟨before, behind, rfl⟩ := List.append_of_mem member
  exact (grounds before key ⟨behind, by simp⟩).mem_keys

end Grounds

/-- All stacks and all traces are grounded. -/
structure Grounded (reconstruction : Reconstruction Time) : Prop where
  opened : ∀ thread, reconstruction.Grounds (reconstruction.openKeysOf thread)
  traces : ∀ record ∈ reconstruction.records, reconstruction.Grounds record.trace

/-- At first there is nothing to ground. -/
theorem grounded_empty : (empty : Reconstruction Time).Grounded where
  opened _ := grounds_nil
  traces _ member := absurd member List.not_mem_nil

/-! ## Copied calls -/

/-- Every copy has the key of what it is a copy of. -/
theorem keys_copyCalls
    {records : List (CallRecord Time)}
    {stack : List OpenCall}
    (bounded : ∀ call ∈ stack, call.record < records.length)
    (copied : List OpenCall) :
    (copyCalls records copied stack).1.map OpenCall.key =
      (stack.map OpenCall.key).reverse ++ copied.map OpenCall.key := by
  induction stack generalizing records copied with
  | nil => rfl
  | cons call inner inductionHypothesis =>
      obtain ⟨inside, innerBounded⟩ := List.forall_mem_cons.mp bounded
      have stillBounded : ∀ other ∈ inner,
          other.record < (records ++ [records[call.record]]).length := by
        intro other member
        rw [List.length_append]
        exact (innerBounded other member).trans_le (Nat.le_add_right _ _)
      rw [copyCalls, List.getElem?_eq_getElem inside]
      simp only [inductionHypothesis stillBounded]
      rw [List.map_cons, List.map_cons, List.reverse_cons, List.append_assoc,
        List.singleton_append]

/-- Every copied record has been there before. -/
theorem mem_of_mem_copyCalls
    {records : List (CallRecord Time)}
    {copied stack : List OpenCall}
    {record : CallRecord Time}
    (member : record ∈ (copyCalls records copied stack).2) :
    record ∈ records := by
  induction stack generalizing records copied with
  | nil => exact member
  | cons call inner inductionHypothesis =>
      rw [copyCalls] at member
      split at member
      next original found =>
        rcases List.mem_append.mp (inductionHypothesis member) with old | isCopy
        · exact old
        · rw [List.mem_singleton.mp isCopy]
          exact List.mem_of_getElem? found
      next => exact inductionHypothesis member

section AtEntry

variable {reconstruction : Reconstruction Time} {rule : ParentRule Time} {thread : String}
  {state : ThreadState} {records : List (CallRecord Time)}

/-- The keys on which a thread enters a call are those of an open stack: of its own or,
at its first call, of the stack of its parent. -/
theorem Grounded.grounds_atEntry
    (grounded : reconstruction.Grounded)
    (bounded : ∀ other, ∀ call ∈ reconstruction.stackOf other,
      call.record < reconstruction.records.length)
    (entered : reconstruction.threadAtEntry rule thread = (state, records)) :
    reconstruction.Grounds state.keys := by
  unfold threadAtEntry at entered
  split at entered
  next known =>
    have stack := grounded.opened thread
    rw [openKeysOf, stackOf, known] at stack
    rw [← (Prod.mk.inj entered).1]
    exact stack
  next =>
    rw [spawn] at entered
    rw [← (Prod.mk.inj entered).1, ThreadState.keys]
    cases rule thread reconstruction.history with
    | none => exact grounds_nil
    | some parent =>
        have parentBounded : ∀ call ∈ (reconstruction.stackOf parent).reverse,
            call.record < reconstruction.records.length := by
          intro call member
          exact bounded parent call (List.mem_reverse.mp member)
        have copies := keys_copyCalls parentBounded []
        rw [List.map_nil, List.append_nil, List.map_reverse, List.reverse_reverse] at copies
        have stack := grounded.opened parent
        rw [openKeysOf, ← copies] at stack
        exact stack

/-- The copies that a thread makes at its first entry are of records there were. -/
theorem mem_of_mem_atEntry
    (entered : reconstruction.threadAtEntry rule thread = (state, records))
    {record : CallRecord Time}
    (member : record ∈ records) :
    record ∈ reconstruction.records := by
  unfold threadAtEntry at entered
  split at entered
  next =>
    rw [(Prod.mk.inj entered).2]
    exact member
  next =>
    rw [← (Prod.mk.inj entered).2] at member
    exact mem_of_mem_copyCalls member

end AtEntry

variable [Arithmetic Time]

/-! ## Entering -/

section Enter

variable {reconstruction : Reconstruction Time} {rule : ParentRule Time} {event : Event Time}

/-- An entry forgets no call. -/
theorem HasCall.enter
    {key : EventKey}
    {trace : List EventKey}
    (called : reconstruction.HasCall key trace)
    (rule : ParentRule Time)
    (event : Event Time) :
    (reconstruction.enter rule event).HasCall key trace := by
  obtain ⟨number, member, found⟩ := called
  obtain ⟨⟨more, records⟩, _⟩ := enter_grows rule reconstruction event
  refine ⟨number, ?_, ?_⟩
  · by_cases same : key = event.key
    · subst same
      obtain ⟨state, more, entered, _⟩ := exists_entersWith rule reconstruction event.thread
      rw [numbersOf_enter entered]
      exact List.mem_append_left _ member
    · rwa [numbersOf_enter_other rule reconstruction same]
  · rw [records, List.map_append, List.getElem?_append_left]
    · exact found
    · exact (List.getElem?_eq_some_iff.mp found).1

/-- The call that is entered has the open keys of its thread for its trace. -/
theorem hasCall_enter
    {state : ThreadState}
    {records : List (CallRecord Time)}
    (entered : reconstruction.threadAtEntry rule event.thread = (state, records)) :
    (reconstruction.enter rule event).HasCall event.key state.keys := by
  refine ⟨records.length, ?_, ?_⟩
  · rw [numbersOf_enter entered]
    exact List.mem_append_right _ (List.mem_singleton_self _)
  · rw [records_enter entered, List.map_append, ← List.length_map CallRecord.trace]
    exact List.getElem?_concat_length

/-- A call that is entered on grounded keys keeps all stacks and traces grounded. -/
theorem Grounded.enter
    (grounded : reconstruction.Grounded)
    (bounded : ∀ other, ∀ call ∈ reconstruction.stackOf other,
      call.record < reconstruction.records.length)
    (rule : ParentRule Time)
    (event : Event Time) :
    (reconstruction.enter rule event).Grounded := by
  cases entered : reconstruction.threadAtEntry rule event.thread with
  | mk state records =>
      have kept : ∀ key trace, reconstruction.HasCall key trace →
          (reconstruction.enter rule event).HasCall key trace :=
        fun key trace called => called.enter rule event
      have below := (grounded.grounds_atEntry bounded entered).mono kept
      constructor
      case opened =>
        intro thread
        by_cases same : thread = event.thread
        · subst same
          rw [openKeysOf, stackOf_enter entered, List.map_cons, List.reverse_cons]
          exact below.append_singleton (hasCall_enter entered)
        · rw [openKeysOf, stackOf_enter_other rule reconstruction same]
          exact (grounded.opened thread).mono kept
      case traces =>
        intro record member
        rw [records_enter entered] at member
        rcases List.mem_append.mp member with old | isNew
        · exact (grounded.traces record (mem_of_mem_atEntry entered old)).mono kept
        · rw [List.mem_singleton.mp isNew]
          exact below

end Enter

/-! ## Leaving -/

section Leave

variable {reconstruction : Reconstruction Time}

omit [Arithmetic Time] in
/-- A change that keeps traces changes none in the list. -/
theorem map_trace_modify
    (number : Nat)
    (change : CallRecord Time -> CallRecord Time)
    (keeps : ∀ record, (change record).trace = record.trace)
    (records : List (CallRecord Time)) :
    (records.modify number change).map CallRecord.trace = records.map CallRecord.trace := by
  apply List.ext_getElem?
  intro place
  rw [List.getElem?_map, List.getElem?_map, List.getElem?_modify]
  cases records[place]? with
  | none => rfl
  | some record =>
      by_cases here : number = place
      · simp [here, keeps]
      · simp [here]

/-- A record keeps its trace whatever it is charged. -/
theorem map_trace_settle
    (records : List (CallRecord Time))
    (event : Event Time)
    (ended : OpenCall)
    (below : List OpenCall) :
    (settle records event ended below).map CallRecord.trace = records.map CallRecord.trace := by
  cases found : records[ended.record]? with
  | none => rw [settle, found]
  | some record =>
      have settled := map_trace_modify ended.record
        (fun record => record.settle event.time (raised event)) (fun _ => rfl) records
      rw [settle_eq found]
      cases below with
      | nil => exact settled
      | cons caller rest =>
          have charged := map_trace_modify caller.record
            (fun outer => outer.charge (record.elapsed event.time)) (fun _ => rfl)
            (records.modify ended.record fun record => record.settle event.time (raised event))
          exact charged.trans settled

/-- Exits change no trace. -/
theorem map_trace_leave
    (reconstruction : Reconstruction Time)
    (event : Event Time) :
    (reconstruction.leave event).records.map CallRecord.trace =
      reconstruction.records.map CallRecord.trace := by
  cases stack : reconstruction.stackOf event.thread with
  | nil => rw [leave_of_stackOf_eq_nil stack]
  | cons ended below => rw [(leave_of_stackOf_eq_cons stack).1, map_trace_settle]

/-- An exit forgets no call. -/
theorem HasCall.leave
    {key : EventKey}
    {trace : List EventKey}
    (called : reconstruction.HasCall key trace)
    (event : Event Time) :
    (reconstruction.leave event).HasCall key trace := by
  obtain ⟨number, member, found⟩ := called
  refine ⟨number, ?_, ?_⟩
  · rwa [numbersOf_leave]
  · rwa [map_trace_leave]

/-- An exit leaves the outer ones of the open keys. -/
theorem openKeysOf_leave
    (reconstruction : Reconstruction Time)
    (event : Event Time)
    (thread : String) :
    (reconstruction.leave event).openKeysOf thread <+: reconstruction.openKeysOf thread := by
  rw [openKeysOf, openKeysOf]
  by_cases same : thread = event.thread
  · subst same
    cases stack : reconstruction.stackOf event.thread with
    | nil =>
        rw [leave_of_stackOf_eq_nil stack, ← stack]
        exact List.prefix_rfl
    | cons ended below =>
        rw [(leave_of_stackOf_eq_cons stack).2, List.map_cons, List.reverse_cons]
        exact List.prefix_append _ _
  · rw [stackOf_leave_other same]

/-- What an exit leaves of a stack is grounded as before. -/
theorem Grounded.leave
    (grounded : reconstruction.Grounded)
    (event : Event Time) :
    (reconstruction.leave event).Grounded := by
  have kept : ∀ key trace, reconstruction.HasCall key trace →
      (reconstruction.leave event).HasCall key trace :=
    fun key trace called => called.leave event
  constructor
  case opened =>
    intro thread
    exact ((grounded.opened thread).mono kept).of_isPrefix
      (openKeysOf_leave reconstruction event thread)
  case traces =>
    intro record member
    have trace : record.trace ∈ reconstruction.records.map CallRecord.trace := by
      rw [← map_trace_leave reconstruction event]
      exact List.mem_map_of_mem member
    obtain ⟨old, oldMember, sameTrace⟩ := List.mem_map.mp trace
    rw [← sameTrace]
    exact (grounded.traces old oldMember).mono kept

end Leave

/-! ## Whole logs -/

/-- Every event keeps stacks and traces grounded. -/
theorem Grounded.step
    {reconstruction : Reconstruction Time}
    (grounded : reconstruction.Grounded)
    (bounded : ∀ other, ∀ call ∈ reconstruction.stackOf other,
      call.record < reconstruction.records.length)
    (rule : ParentRule Time)
    (event : Event Time) :
    (reconstruction.step rule event).Grounded := by
  have unrecorded : ∀ {next : Reconstruction Time}, next.Grounded →
      ({ next with history := event :: reconstruction.history } : Reconstruction Time).Grounded :=
    fun kept => ⟨kept.opened, kept.traces⟩
  unfold Reconstruction.step
  split
  next => exact unrecorded (grounded.enter bounded rule event)
  next => exact unrecorded (grounded.leave event)

/-- After every log all stacks and traces are grounded. -/
theorem grounded_ofEvents
    (rule : ParentRule Time)
    (events : List (Event Time)) :
    (ofEvents rule events).Grounded := by
  induction events using List.reverseRecOn with
  | nil => exact grounded_empty
  | append_singleton front event inductionHypothesis =>
      obtain ⟨numbers, mirrors⟩ := exists_mirrors rule front event.thread
      rw [ofEvents_append_singleton]
      exact inductionHypothesis.step mirrors.bounded rule event

section Complete

variable {rule : ParentRule Time} {events : List (Event Time)} {key : EventKey}

/-- The keys of a completed call, its own behind those it was entered on, are grounded. -/
theorem grounds_of_mem_callsOf
    {record : CallRecord Time}
    (member : record ∈ (ofEvents rule events).callsOf key) :
    (ofEvents rule events).Grounds (record.trace ++ [key]) := by
  have numbered := (List.mem_filter.mp member).1
  obtain ⟨number, isNumber, found⟩ := List.mem_filterMap.mp numbered
  have called : (ofEvents rule events).HasCall key record.trace :=
    ⟨number, isNumber, by rw [List.getElem?_map, found, Option.map_some]⟩
  have below := (grounded_ofEvents rule events).traces record (List.mem_of_getElem? found)
  exact below.append_singleton called

/-- Where no call is left open, every call that was entered is among the completed
calls. -/
theorem HasCall.exists_mem_callsOf
    {trace : List EventKey}
    (noneOpen : (ofEvents rule events).openCount = 0)
    (called : (ofEvents rule events).HasCall key trace) :
    ∃ record ∈ (ofEvents rule events).callsOf key, record.trace = trace := by
  obtain ⟨number, member, found⟩ := called
  rw [List.getElem?_map] at found
  obtain ⟨record, recordFound, sameTrace⟩ := Option.map_eq_some_iff.mp found
  refine ⟨record, ?_, sameTrace⟩
  obtain ⟨numbers, isEntry, member⟩ := mem_numbersOf_iff.mp member
  have numbered : record ∈
      numbers.filterMap fun number => (ofEvents rule events).records[number]? :=
    List.mem_filterMap.mpr ⟨number, member, recordFound⟩
  have entryMember := (FirstSeen.find?_eq_some_iff (nodup_keys rule events)).mp isEntry
  have complete := List.flatMap_eq_nil_iff.mp (List.length_eq_zero_iff.mp noneOpen)
    (key, numbers) entryMember
  rw [callsOf, isEntry]
  refine List.mem_filter.mpr ⟨numbered, ?_⟩
  simpa using List.filter_eq_nil_iff.mp complete record numbered

/-- The keys that a completed call was entered on are those of completed calls. -/
theorem exists_mem_callsOf_of_isPrefix
    {record : CallRecord Time}
    {trace : List EventKey}
    {outer : EventKey}
    (noneOpen : (ofEvents rule events).openCount = 0)
    (member : record ∈ (ofEvents rule events).callsOf key)
    (starts : trace ++ [outer] <+: record.trace ++ [key]) :
    ∃ caller ∈ (ofEvents rule events).callsOf outer, caller.trace = trace :=
  (grounds_of_mem_callsOf member trace outer starts).exists_mem_callsOf noneOpen

end Complete

end Reconstruction
end FlameProfile
