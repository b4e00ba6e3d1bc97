import Mathlib
import FlameProfile.Proofs.Call.Frames
import FlameProfile.Proofs.Result
import FlameProfile.Proofs.Slots

/-!
# Reconstruction by slots

A reconstruction refers to its records by number and to the numbers of a key by the slot of
the key. Here every such reference is followed as an access to a list that can be out of
range, and an index of the keys is kept beside the list of calls. None of these accesses
fails: after any log the state holds the reconstruction of the log, whose numbers are all
owned, and an index that is in step with the keys. `exists_step` says so of one event and
`exists_run` of a log.
-/

namespace FlameProfile

deriving instance Hashable for Location

deriving instance Hashable for EventKey

/-- A reconstruction with an index of the keys that have called. -/
structure Reconstructor (Time : Type) extends Reconstruction Time where
  /-- The place of each key in the list of calls. -/
  slots : Std.HashMap EventKey Nat

namespace Reconstructor

variable {Time : Type}

/-- Nothing seen yet. -/
def empty : Reconstructor Time where
  toReconstruction := Reconstruction.empty
  slots := ∅

/-- The numbers of each key, with the index of the keys. -/
def buckets (state : Reconstructor Time) : Indexed EventKey (EventKey × List Nat) where
  items := state.calls
  slots := state.slots

/-! ## Threads -/

/-- Copy the records of open calls, given outermost first. -/
def copyCalls
    (records : List (CallRecord Time))
    (copied : List OpenCall) :
    List OpenCall -> Except OutOfRange (List OpenCall × List (CallRecord Time))
  | [] => .ok (copied, records)
  | call :: inner => do
      let record ← Slot.reach records call.record
      copyCalls (records ++ [record]) (⟨call.key, records.length⟩ :: copied) inner

/-- State of a thread that enters its first call, with copies of the calls that are open on
its parent. -/
def spawn
    (rule : ParentRule Time)
    (state : Reconstructor Time)
    (thread : String) : Except OutOfRange (ThreadState × List (CallRecord Time)) := do
  let parent := rule thread state.history
  let stack := ((parent.bind state.thread?).map ThreadState.stack).getD []
  let copies ← copyCalls state.records [] stack.reverse
  return (⟨parent, (copies.1.map OpenCall.key).reverse, copies.1⟩, copies.2)

/-- State of a thread that enters a call, and the records there are then. -/
def threadAtEntry
    (rule : ParentRule Time)
    (state : Reconstructor Time)
    (thread : String) : Except OutOfRange (ThreadState × List (CallRecord Time)) :=
  match state.thread? thread with
  | some known => .ok (known, state.records)
  | none => state.spawn rule thread

/-! ## Events -/

variable [Arithmetic Time]

/-- Open a call on the stack of its thread, and put its number into the slot of its key. -/
def enter
    (rule : ParentRule Time)
    (state : Reconstructor Time)
    (event : Event Time) : Except OutOfRange (Reconstructor Time) := do
  let (thread, records) ← state.threadAtEntry rule event.thread
  let pushed := { thread with stack := ⟨event.key, records.length⟩ :: thread.stack }
  let buckets ← state.buckets.update event.key (event.key, [])
    (Prod.map id fun numbers => numbers ++ [records.length])
  return { state with
    records := records ++ [CallRecord.opened event.time thread.keys]
    calls := buckets.items
    slots := buckets.slots
    threads := FirstSeen.record event.thread pushed (fun _ => pushed) state.threads
    callCounts :=
      FirstSeen.record event.key.function 1 (fun count => count + 1) state.callCounts }

/-- End the call with a record, and charge its time to the record of the call below it. -/
def settle
    (records : List (CallRecord Time))
    (event : Event Time)
    (ended : OpenCall)
    (below : List OpenCall) : Except OutOfRange (List (CallRecord Time)) := do
  let record ← Slot.reach records ended.record
  let settled ← Slot.amend records ended.record fun record =>
    record.settle event.time (Reconstruction.raised event)
  match below with
  | [] => return settled
  | caller :: _ =>
      Slot.amend settled caller.record fun outer => outer.charge (record.elapsed event.time)

/-- End the innermost open call of a thread, if it has one. -/
def leave
    (state : Reconstructor Time)
    (event : Event Time) : Except OutOfRange (Reconstructor Time) :=
  match state.thread? event.thread with
  | some { parent, inherited, stack := ended :: below } => do
      let popped : ThreadState := ⟨parent, inherited, below⟩
      let records ← settle state.records event ended below
      return { state with
        records := records
        threads := FirstSeen.record event.thread popped (fun _ => popped) state.threads }
  | _ => .ok { state with unmatched := state.unmatched + 1 }

/-- Take the next event into account. -/
def step
    (rule : ParentRule Time)
    (state : Reconstructor Time)
    (event : Event Time) : Except OutOfRange (Reconstructor Time) := do
  let next ← (if event.kind.isEntry then state.enter rule event else state.leave event)
  return { next with history := event :: state.history }

/-- The state after a log. -/
def run
    (rule : ParentRule Time)
    (events : List (Event Time)) : Except OutOfRange (Reconstructor Time) :=
  events.foldlM (step rule) empty

/-! ## Results -/

/-- Completed calls with the given numbers. -/
def completedOf
    (state : Reconstructor Time)
    (numbers : List Nat) : Except OutOfRange (List (CallRecord Time)) := do
  let records ← numbers.mapM (Slot.reach state.records)
  return records.filter CallRecord.isComplete

/-- Completed calls of a key, in the order of their starts. -/
def callsOf
    (state : Reconstructor Time)
    (key : EventKey) : Except OutOfRange (List (CallRecord Time)) := do
  match ← state.buckets.find? key with
  | none => return []
  | some bucket => state.completedOf bucket.2

/-- All completed calls with their keys, key by key. -/
def completed
    (state : Reconstructor Time) : Except OutOfRange (List (EventKey × CallRecord Time)) := do
  let groups ← state.calls.mapM fun entry => do
    let records ← state.completedOf entry.2
    return records.map fun record => (entry.1, record)
  return groups.flatten

/-! ## No slot is out of range -/

section Reach

variable {rule : ParentRule Time} {state : Reconstructor Time} {event : Event Time}

omit [Arithmetic Time] in
/-- Calls whose numbers have records are copied. -/
theorem copyCalls_eq
    {records : List (CallRecord Time)}
    {stack : List OpenCall}
    (bounded : ∀ call ∈ stack, call.record < records.length)
    (copied : List OpenCall) :
    copyCalls records copied stack = .ok (Reconstruction.copyCalls records copied stack) := by
  induction stack generalizing records copied with
  | nil => rfl
  | cons call inner inductionHypothesis =>
      obtain ⟨inside, innerBounded⟩ := List.forall_mem_cons.mp bounded
      have found := List.getElem?_eq_getElem inside
      have stillBounded : ∀ other ∈ inner,
          other.record < (records ++ [records[call.record]]).length := by
        intro other member
        rw [List.length_append]
        exact (innerBounded other member).trans_le (Nat.le_add_right _ _)
      rw [copyCalls, Slot.reach_of_getElem? found, Reconstruction.copyCalls, found]
      exact inductionHypothesis stillBounded _

omit [Arithmetic Time] in
/-- Where numbers are owned, every copy that a thread makes is of a record in range. -/
theorem threadAtEntry_eq
    (owned : state.toReconstruction.Owned)
    (rule : ParentRule Time)
    (thread : String) :
    state.threadAtEntry rule thread =
      .ok (state.toReconstruction.threadAtEntry rule thread) := by
  have bounded : ∀ parent, ∀ call ∈ (state.stackOf parent).reverse,
      call.record < state.records.length := by
    intro parent call onStack
    exact owned.stackedBound _
      (Reconstruction.mem_stackNumbers_of_mem_stackOf (List.mem_reverse.mp onStack))
  rw [threadAtEntry, Reconstruction.threadAtEntry]
  cases state.thread? thread with
  | some known => rfl
  | none =>
      change state.spawn rule thread = .ok (state.toReconstruction.spawn rule thread)
      rw [spawn, Reconstruction.spawn, Reconstruction.getD_stack_bind]
      cases rule thread state.history with
      | none => rfl
      | some parent =>
          rw [Option.elim_some, copyCalls_eq (bounded parent)]
          rfl

/-- A state holds a reconstruction, with an index that is in step with its keys. -/
structure Holds
    (state : Reconstructor Time)
    (reconstruction : Reconstruction Time) : Prop where
  same : state.toReconstruction = reconstruction
  inStep : state.buckets.InStep Prod.fst

/-- Entering a call stays in range and does what the reconstruction does. -/
theorem exists_enter
    (owned : state.toReconstruction.Owned)
    (inStep : state.buckets.InStep Prod.fst)
    (rule : ParentRule Time)
    (event : Event Time) :
    ∃ next, state.enter rule event = .ok next ∧
      next.Holds (state.toReconstruction.enter rule event) := by
  cases entered : state.toReconstruction.threadAtEntry rule event.thread with
  | mk thread records =>
      have noted : ∀ entry : EventKey × List Nat, entry.1 = event.key →
          (Prod.map id (fun numbers => numbers ++ [records.length]) entry).1 = event.key :=
        fun _ same => same
      obtain ⟨buckets, updated, stillInStep, items⟩ :=
        inStep.exists_update (rfl : (event.key, ([] : List Nat)).1 = event.key) noted
      have calls : (state.toReconstruction.enter rule event).calls = buckets.items := by
        rw [items, Reconstruction.enter, entered]
        exact FirstSeen.record_eq_upsert event.key [] (fun numbers => numbers ++ [records.length]) _
      refine ⟨⟨state.toReconstruction.enter rule event, buckets.slots⟩, ?_, rfl, ?_⟩
      · rw [enter, threadAtEntry_eq owned, entered]
        change (state.buckets.update _ _ _ >>= _) = _
        rw [updated]
        change Except.ok _ = Except.ok _
        rw [← calls, Reconstruction.enter, entered]
      · rw [Reconstructor.buckets, calls]
        exact stillInStep

/-- Ending a call stays in range if the numbers on its stack do. -/
theorem settle_eq
    {records : List (CallRecord Time)}
    {ended : OpenCall}
    {below : List OpenCall}
    (bounded : ∀ call ∈ ended :: below, call.record < records.length)
    (event : Event Time) :
    settle records event ended below =
      .ok (Reconstruction.settle records event ended below) := by
  obtain ⟨inside, belowBounded⟩ := List.forall_mem_cons.mp bounded
  have found := List.getElem?_eq_getElem inside
  rw [settle, Slot.reach_of_getElem? found, Slot.amend_of_lt inside, Reconstruction.settle, found]
  cases below with
  | nil => rfl
  | cons caller rest =>
      refine Slot.amend_of_lt ?_ _
      rw [List.length_modify]
      exact belowBounded caller List.mem_cons_self

/-- Leaving a call stays in range and does what the reconstruction does. -/
theorem exists_leave
    (owned : state.toReconstruction.Owned)
    (inStep : state.buckets.InStep Prod.fst)
    (event : Event Time) :
    ∃ next, state.leave event = .ok next ∧ next.Holds (state.toReconstruction.leave event) := by
  refine ⟨⟨state.toReconstruction.leave event, state.slots⟩, ?_, rfl, ?_⟩
  · rw [leave, Reconstruction.leave]
    rcases known : state.thread? event.thread with _ | ⟨parent, inherited, _ | ⟨ended, below⟩⟩
    · rfl
    · rfl
    · have bounded : ∀ call ∈ ended :: below, call.record < state.records.length := by
        intro call onStack
        apply owned.stackedBound
        apply Reconstruction.mem_stackNumbers_of_mem_stackOf
        exact Reconstruction.mem_stackOf_iff.mpr ⟨_, known, onStack⟩
      simp only [settle_eq bounded]
      rfl
  · rw [buckets, Reconstruction.calls_leave]
    exact inStep

/-- Every event stays in range and does what the reconstruction does. -/
theorem exists_step
    (owned : state.toReconstruction.Owned)
    (inStep : state.buckets.InStep Prod.fst)
    (rule : ParentRule Time)
    (event : Event Time) :
    ∃ next, state.step rule event = .ok next ∧
      next.Holds (state.toReconstruction.step rule event) := by
  have taken : ∃ next, (if event.kind.isEntry then state.enter rule event else state.leave event) =
      .ok next ∧ next.Holds (if event.kind.isEntry then
        state.toReconstruction.enter rule event else state.toReconstruction.leave event) := by
    split
    next => exact exists_enter owned inStep rule event
    next => exact exists_leave owned inStep event
  obtain ⟨next, reached, same, stillInStep⟩ := taken
  refine ⟨{ next with history := event :: state.history }, ?_, ?_, stillInStep⟩
  · rw [step, reached]
    rfl
  · rw [Reconstruction.step, ← same]

end Reach

/-! ## Whole logs -/

/-- No log leads out of range, and the state after it holds its reconstruction. -/
theorem exists_run
    (rule : ParentRule Time)
    (events : List (Event Time)) :
    ∃ state, run rule events = .ok state ∧ state.Holds (Reconstruction.ofEvents rule events) := by
  induction events using List.reverseRecOn with
  | nil => exact ⟨empty, rfl, rfl, Indexed.inStep_empty⟩
  | append_singleton front event inductionHypothesis =>
      obtain ⟨state, reached, same, inStep⟩ := inductionHypothesis
      have owned : state.toReconstruction.Owned := same ▸ Reconstruction.owned_ofEvents rule front
      obtain ⟨next, stepped, holds⟩ := exists_step owned inStep rule event
      refine ⟨next, ?_, ?_⟩
      · rw [run, List.foldlM_append, ← run, reached]
        exact (bind_pure (state.step rule event)).trans stepped
      · rwa [Reconstruction.ofEvents_append_singleton, ← same]

/-! ## Results -/

section Results

variable {state : Reconstructor Time}

omit [Arithmetic Time] in
/-- Records with listed numbers are all in range. -/
theorem completedOf_eq
    (owned : state.toReconstruction.Owned)
    {numbers : List Nat}
    (listed : ∀ number ∈ numbers, number ∈ state.callNumbers) :
    state.completedOf numbers = .ok (state.toReconstruction.completedOf numbers) := by
  have bounded : ∀ number ∈ numbers, number < state.records.length :=
    fun number member => owned.listedBound number (listed number member)
  rw [completedOf, Slot.mapM_reach bounded]
  rfl

omit [Arithmetic Time] in
/-- The calls of a key are found in range, those that the reconstruction has. -/
theorem callsOf_eq
    (owned : state.toReconstruction.Owned)
    (inStep : state.buckets.InStep Prod.fst)
    (key : EventKey) :
    state.callsOf key = .ok (state.toReconstruction.callsOf key) := by
  rw [callsOf, inStep.find?_eq, Reconstruction.callsOf, FirstSeen.find?_eq_map_find?]
  cases found : List.find? (fun entry => decide (entry.1 = key)) state.calls with
  | none =>
      rw [buckets, found]
      rfl
  | some bucket =>
      have listed : ∀ number ∈ bucket.2, number ∈ state.callNumbers := fun number member =>
        List.mem_flatMap.mpr ⟨bucket, List.mem_of_find?_eq_some found, member⟩
      rw [buckets, found]
      exact completedOf_eq owned listed

omit [Arithmetic Time] in
/-- All completed calls are found in range, those that the reconstruction has. -/
theorem completed_eq (owned : state.toReconstruction.Owned) :
    state.completed = .ok state.toReconstruction.completed := by
  have groups : ∀ entry ∈ state.calls, (do
      let records ← state.completedOf entry.2
      return records.map fun record => (entry.1, record)) =
        .ok ((state.toReconstruction.completedOf entry.2).map fun record => (entry.1, record)) := by
    intro entry isEntry
    have listed : ∀ number ∈ entry.2, number ∈ state.callNumbers := fun number member =>
      List.mem_flatMap.mpr ⟨entry, isEntry, member⟩
    rw [completedOf_eq owned listed]
    rfl
  rw [completed, Result.mapM_eq_ok groups, Reconstruction.completed, List.flatMap_def]
  rfl

end Results

/-- Whatever the log and whatever the rule for parents, no record and no slot is out of
range, on the way or in the results. -/
theorem exists_run_owned
    (rule : ParentRule Time)
    (events : List (Event Time)) :
    ∃ state, run rule events = .ok state ∧
      state.toReconstruction = Reconstruction.ofEvents rule events ∧
      state.Owned ∧ state.Framed ∧
      state.buckets.InStep Prod.fst ∧
      (∀ key, state.callsOf key = .ok (state.toReconstruction.callsOf key)) ∧
      state.completed = .ok state.toReconstruction.completed := by
  obtain ⟨state, reached, same, inStep⟩ := exists_run rule events
  have owned : state.toReconstruction.Owned := same ▸ Reconstruction.owned_ofEvents rule events
  have framed : state.toReconstruction.Framed := same ▸ Reconstruction.framed_ofEvents rule events
  exact ⟨state, reached, same, owned, framed, inStep, callsOf_eq owned inStep, completed_eq owned⟩

end Reconstructor
end FlameProfile
