import Mathlib
import FlameProfile.Call.Reconstruction

/-!
# Effects of single events

An event changes the stack of its own thread, the list of numbers of its own key
and some records, and nothing else. This module says how, separately for what is
entered and what is left. A thread that enters its first call copies records to
new numbers, all behind the records there are.
-/

namespace FlameProfile

/-- A value that is written whatever was there is found. -/
theorem FirstSeen.find?_record_const
    {Key Value : Type}
    [DecidableEq Key]
    (key : Key)
    (value : Value)
    (table : FirstSeen Key Value) :
    FirstSeen.find? key (FirstSeen.record key value (fun _ => value) table) = some value := by
  rw [FirstSeen.find?_record_same]
  cases FirstSeen.find? key table with
  | none => rfl
  | some old => rfl

namespace Reconstruction

variable {Time : Type}

/-- The open calls of a thread, innermost first. -/
def stackOf
    (reconstruction : Reconstruction Time)
    (thread : String) : List OpenCall :=
  ((reconstruction.thread? thread).map ThreadState.stack).getD []

/-- Only a thread that is known has open calls, those of its state. -/
theorem mem_stackOf_iff
    {reconstruction : Reconstruction Time}
    {thread : String}
    {call : OpenCall} :
    call ∈ reconstruction.stackOf thread ↔
      ∃ state, reconstruction.thread? thread = some state ∧ call ∈ state.stack := by
  rw [stackOf]
  cases reconstruction.thread? thread <;> simp

/-- The keys that a thread has inherited, outermost first. -/
def inheritedOf
    (reconstruction : Reconstruction Time)
    (thread : String) : List EventKey :=
  ((reconstruction.thread? thread).map ThreadState.inherited).getD []

/-- The numbers of the records of a key. -/
def numbersOf
    (reconstruction : Reconstruction Time)
    (key : EventKey) : List Nat :=
  (FirstSeen.find? key reconstruction.calls).getD []

/-- Only a key that has entered has numbers, those in its list. -/
theorem mem_numbersOf_iff
    {reconstruction : Reconstruction Time}
    {key : EventKey}
    {number : Nat} :
    number ∈ reconstruction.numbersOf key ↔
      ∃ numbers, FirstSeen.find? key reconstruction.calls = some numbers ∧ number ∈ numbers := by
  rw [numbersOf]
  cases FirstSeen.find? key reconstruction.calls <;> simp

/-- The records of a key, complete or not, in the order of their starts. -/
def recordsOf
    (reconstruction : Reconstruction Time)
    (key : EventKey) : List (CallRecord Time) :=
  (reconstruction.numbersOf key).filterMap fun number => reconstruction.records[number]?

/-- The calls of a key are its complete records. -/
theorem callsOf_eq_filter
    (reconstruction : Reconstruction Time)
    (key : EventKey) :
    reconstruction.callsOf key = (reconstruction.recordsOf key).filter CallRecord.isComplete := rfl

/-! ## First calls of threads -/

/-- Copies stand behind the records there are. -/
theorem exists_copyCalls
    (records : List (CallRecord Time))
    (copied stack : List OpenCall) :
    ∃ fresh more, copyCalls records copied stack = (fresh ++ copied, records ++ more) ∧
      ∀ call ∈ fresh, records.length ≤ call.record ∧ call.record < (records ++ more).length := by
  induction stack generalizing records copied with
  | nil => exact ⟨[], [], by rw [copyCalls, List.append_nil]; rfl, by simp⟩
  | cons call inner inductionHypothesis =>
      rw [copyCalls]
      split
      next record _ =>
        obtain ⟨fresh, more, copies, numbered⟩ :=
          inductionHypothesis (records ++ [record]) (⟨call.key, records.length⟩ :: copied)
        rw [List.append_assoc, List.singleton_append] at copies numbered
        refine ⟨fresh ++ [⟨call.key, records.length⟩], record :: more, ?_, ?_⟩
        · rw [copies, List.append_assoc, List.singleton_append]
        · intro other member
          rcases List.mem_append.mp member with inFresh | isNew
          · obtain ⟨above, inside⟩ := numbered other inFresh
            rw [List.length_append, List.length_singleton] at above
            exact ⟨Nat.le_of_succ_le above, inside⟩
          · rw [List.mem_singleton.mp isNew]
            simp
      next => exact inductionHypothesis records copied

/-- A thread enters a call with the state that it has; or, at its first call,
with copies of open calls behind the records there are. -/
def EntersWith
    (reconstruction : Reconstruction Time)
    (thread : String)
    (state : ThreadState)
    (more : List (CallRecord Time)) : Prop :=
  (reconstruction.thread? thread = some state ∧ more = []) ∨
    (reconstruction.thread? thread = none ∧
      state.inherited = (state.stack.map OpenCall.key).reverse ∧
      ∀ call ∈ state.stack, reconstruction.records.length ≤ call.record ∧
        call.record < (reconstruction.records ++ more).length)

/-- Every thread can enter, with the state that it has or with copies. -/
theorem exists_entersWith
    (rule : ParentRule Time)
    (reconstruction : Reconstruction Time)
    (thread : String) :
    ∃ state more, reconstruction.threadAtEntry rule thread =
        (state, reconstruction.records ++ more) ∧
      reconstruction.EntersWith thread state more := by
  unfold threadAtEntry
  cases known : reconstruction.thread? thread with
  | some state => exact ⟨state, [], by rw [List.append_nil], Or.inl ⟨known, rfl⟩⟩
  | none =>
      unfold spawn
      obtain ⟨fresh, more, copies, numbered⟩ := exists_copyCalls reconstruction.records []
        ((((rule thread reconstruction.history).bind reconstruction.thread?).map
          ThreadState.stack).getD []).reverse
      rw [List.append_nil] at copies
      refine ⟨⟨rule thread reconstruction.history, (fresh.map OpenCall.key).reverse, fresh⟩, more,
        ?_, Or.inr ⟨known, rfl, numbered⟩⟩
      simp only [copies]

/-- Without a rule for parents, nothing is inherited. -/
theorem spawn_none
    (reconstruction : Reconstruction Time)
    (thread : String) :
    reconstruction.spawn ParentStrategy.none.rule thread =
      (⟨none, [], []⟩, reconstruction.records) := rfl

variable [Arithmetic Time]

/-! ## Entering -/

section Enter

variable {rule : ParentRule Time} {reconstruction : Reconstruction Time} {event : Event Time}
  {state : ThreadState} {records : List (CallRecord Time)}

/-- An entry opens a record behind all others. -/
theorem records_enter
    (entered : reconstruction.threadAtEntry rule event.thread = (state, records)) :
    (reconstruction.enter rule event).records =
      records ++ [CallRecord.opened event.time state.keys] := by
  rw [enter, entered]

/-- The call that is entered becomes the innermost one of its thread. -/
theorem stackOf_enter
    (entered : reconstruction.threadAtEntry rule event.thread = (state, records)) :
    (reconstruction.enter rule event).stackOf event.thread =
      ⟨event.key, records.length⟩ :: state.stack := by
  rw [enter, entered, stackOf, thread?, FirstSeen.find?_record_const]
  rfl

/-- An entry keeps the keys that its thread has inherited. -/
theorem inheritedOf_enter
    (entered : reconstruction.threadAtEntry rule event.thread = (state, records)) :
    (reconstruction.enter rule event).inheritedOf event.thread = state.inherited := by
  rw [enter, entered, inheritedOf, thread?, FirstSeen.find?_record_const]
  rfl

/-- An entry adds the number of its record to the list of its key. -/
theorem numbersOf_enter
    (entered : reconstruction.threadAtEntry rule event.thread = (state, records)) :
    (reconstruction.enter rule event).numbersOf event.key =
      reconstruction.numbersOf event.key ++ [records.length] := by
  rw [enter, entered, numbersOf, numbersOf, FirstSeen.find?_record_same]
  cases FirstSeen.find? event.key reconstruction.calls with
  | none => rfl
  | some old => rfl

variable (rule reconstruction)

/-- An entry leaves the states of other threads. -/
theorem thread?_enter_other
    {thread : String}
    (different : thread ≠ event.thread) :
    (reconstruction.enter rule event).thread? thread = reconstruction.thread? thread :=
  FirstSeen.find?_record_other different _ _ _

/-- An entry leaves the lists of other keys. -/
theorem numbersOf_enter_other
    {key : EventKey}
    (different : key ≠ event.key) :
    (reconstruction.enter rule event).numbersOf key = reconstruction.numbersOf key := by
  have same : FirstSeen.find? key (reconstruction.enter rule event).calls =
      FirstSeen.find? key reconstruction.calls :=
    FirstSeen.find?_record_other different _ _ _
  rw [numbersOf, numbersOf, same]

/-- An entry leaves the open calls of other threads. -/
theorem stackOf_enter_other
    {thread : String}
    (different : thread ≠ event.thread) :
    (reconstruction.enter rule event).stackOf thread = reconstruction.stackOf thread := by
  rw [stackOf, thread?_enter_other rule reconstruction different, stackOf]

/-- An entry leaves what other threads have inherited. -/
theorem inheritedOf_enter_other
    {thread : String}
    (different : thread ≠ event.thread) :
    (reconstruction.enter rule event).inheritedOf thread = reconstruction.inheritedOf thread := by
  rw [inheritedOf, thread?_enter_other rule reconstruction different, inheritedOf]

/-- Records are only added, and what is put on a stack has a number behind the
records there were. -/
theorem enter_grows (event : Event Time) :
    (∃ more, (reconstruction.enter rule event).records = reconstruction.records ++ more) ∧
      ∀ call ∈ (reconstruction.enter rule event).stackOf event.thread,
        call ∈ reconstruction.stackOf event.thread ∨
          (reconstruction.records.length ≤ call.record ∧
            call.record < (reconstruction.enter rule event).records.length) := by
  obtain ⟨state, more, entered, origin⟩ := exists_entersWith rule reconstruction event.thread
  rw [records_enter entered, stackOf_enter entered]
  refine ⟨⟨_, List.append_assoc _ _ _⟩, ?_⟩
  intro call member
  rcases List.mem_cons.mp member with rfl | onStack
  · exact Or.inr ⟨by simp, by simp⟩
  · rcases origin with ⟨known, _⟩ | ⟨_, _, numbered⟩
    · apply Or.inl
      rwa [stackOf, known]
    · obtain ⟨above, inside⟩ := numbered call onStack
      refine Or.inr ⟨above, inside.trans ?_⟩
      simp

end Enter

/-! ## Leaving -/

section Leave

variable {reconstruction : Reconstruction Time} {event : Event Time}

/-- An exit without an open call is only counted. -/
theorem leave_of_stackOf_eq_nil (noneOpen : reconstruction.stackOf event.thread = []) :
    reconstruction.leave event =
      { reconstruction with unmatched := reconstruction.unmatched + 1 } := by
  unfold leave
  split
  next known =>
    rw [stackOf, known] at noneOpen
    exact absurd noneOpen (List.cons_ne_nil _ _)
  next => rfl

omit [Arithmetic Time] in
/-- A thread with an open call is known. -/
theorem exists_thread?_eq_some
    {thread : String}
    {ended : OpenCall}
    {below : List OpenCall}
    (someOpen : reconstruction.stackOf thread = ended :: below) :
    ∃ parent inherited, reconstruction.thread? thread =
      some ⟨parent, inherited, ended :: below⟩ := by
  cases known : reconstruction.thread? thread with
  | none =>
      rw [stackOf, known] at someOpen
      exact absurd someOpen.symm (List.cons_ne_nil _ _)
  | some state =>
      rw [stackOf, known] at someOpen
      exact ⟨state.parent, state.inherited, congrArg some (by rw [← someOpen]; rfl)⟩

/-- An exit ends the innermost open call of its thread. -/
theorem leave_of_stackOf_eq_cons
    {ended : OpenCall}
    {below : List OpenCall}
    (someOpen : reconstruction.stackOf event.thread = ended :: below) :
    (reconstruction.leave event).records = settle reconstruction.records event ended below ∧
      (reconstruction.leave event).stackOf event.thread = below := by
  obtain ⟨parent, inherited, known⟩ := exists_thread?_eq_some someOpen
  rw [leave, known]
  refine ⟨rfl, ?_⟩
  rw [stackOf, thread?, FirstSeen.find?_record_const]
  rfl

/-- Only an exit without an open call is counted as unmatched. -/
theorem unmatched_leave
    (reconstruction : Reconstruction Time)
    (event : Event Time) :
    (reconstruction.leave event).unmatched =
      reconstruction.unmatched + if reconstruction.stackOf event.thread = [] then 1 else 0 := by
  cases stack : reconstruction.stackOf event.thread with
  | nil => rw [leave_of_stackOf_eq_nil stack, if_pos rfl]
  | cons ended below =>
      obtain ⟨parent, inherited, known⟩ := exists_thread?_eq_some stack
      rw [leave, known, if_neg (List.cons_ne_nil ended below)]
      rfl

/-- An exit leaves the states of other threads. -/
theorem thread?_leave_other
    {thread : String}
    (different : thread ≠ event.thread) :
    (reconstruction.leave event).thread? thread = reconstruction.thread? thread := by
  unfold leave
  split
  · exact FirstSeen.find?_record_other different _ _ _
  · rfl

/-- An exit leaves the open calls of other threads. -/
theorem stackOf_leave_other
    {thread : String}
    (different : thread ≠ event.thread) :
    (reconstruction.leave event).stackOf thread = reconstruction.stackOf thread := by
  rw [stackOf, thread?_leave_other different, stackOf]

/-- An exit leaves inherited keys as they are. -/
@[simp] theorem inheritedOf_leave
    (reconstruction : Reconstruction Time)
    (event : Event Time)
    (thread : String) :
    (reconstruction.leave event).inheritedOf thread = reconstruction.inheritedOf thread := by
  by_cases same : thread = event.thread
  · subst same
    unfold leave
    split
    next known =>
      rw [inheritedOf, thread?, FirstSeen.find?_record_const, inheritedOf, known]
      rfl
    next => rfl
  · rw [inheritedOf, thread?_leave_other same, inheritedOf]

/-- What is left on the stacks after an exit has been there before. -/
theorem mem_stackOf_leave
    {other : String}
    {call : OpenCall}
    (member : call ∈ (reconstruction.leave event).stackOf other) :
    call ∈ reconstruction.stackOf other := by
  by_cases same : other = event.thread
  · subst same
    cases stack : reconstruction.stackOf event.thread with
    | nil =>
        rw [leave_of_stackOf_eq_nil stack] at member
        rwa [← stack]
    | cons ended below =>
        rw [(leave_of_stackOf_eq_cons stack).2] at member
        exact List.mem_cons_of_mem ended member
  · rwa [stackOf_leave_other same] at member

@[simp] theorem calls_leave
    (reconstruction : Reconstruction Time)
    (event : Event Time) :
    (reconstruction.leave event).calls = reconstruction.calls := by
  unfold leave
  split
  · rfl
  · rfl

/-- An exit lists no call. -/
@[simp] theorem numbersOf_leave
    (reconstruction : Reconstruction Time)
    (event : Event Time)
    (key : EventKey) :
    (reconstruction.leave event).numbersOf key = reconstruction.numbersOf key := by
  rw [numbersOf, calls_leave, numbersOf]

end Leave

/-! ## Last events -/

/-- The last event of a log is a step on what the events before it give. -/
theorem ofEvents_append_singleton
    (rule : ParentRule Time)
    (front : List (Event Time))
    (event : Event Time) :
    ofEvents rule (front ++ [event]) = (ofEvents rule front).step rule event := by
  rw [ofEvents, List.foldl_append]
  rfl

end Reconstruction
end FlameProfile
