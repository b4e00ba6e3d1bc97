import Mathlib
import FlameProfile.Drawing.Picture
import FlameProfile.HotPath
import FlameProfile.Proofs.Call.Accounting
import FlameProfile.Proofs.Call.Isolation
import FlameProfile.Proofs.Stack.Coalescing
import FlameProfile.Proofs.Tree.Depth

/-!
# Interleavings of threads

Two logs are interleavings of the same events if each thread has the same events in
both, in the same order. Without parents they have the same calls, key by key; only the
order in which the keys appear is another one. In exact arithmetic that order does not
show in the stacks, which are sorted by path and add up what they are coalesced from,
and so it shows in nothing that is made of the stacks.
-/

namespace FlameProfile
namespace Reconstruction

variable {Time : Type} [Arithmetic Time]

/-! ## Counts that a log determines -/

section Counts

variable (rule : ParentRule Time)

/-- Entries leave no exit unmatched. -/
@[simp] theorem unmatched_enter
    (reconstruction : Reconstruction Time)
    (event : Event Time) :
    (reconstruction.enter rule event).unmatched = reconstruction.unmatched := rfl

/-- Exits count no call. -/
@[simp] theorem callCounts_leave
    (reconstruction : Reconstruction Time)
    (event : Event Time) :
    (reconstruction.leave event).callCounts = reconstruction.callCounts := by
  unfold leave
  split
  · rfl
  · rfl

/-- An event counts for its function if it is an entry. -/
theorem callCount_step
    (reconstruction : Reconstruction Time)
    (event : Event Time)
    (function : String) :
    (reconstruction.step rule event).callCount function =
      reconstruction.callCount function +
        if event.kind.isEntry && event.key.function = function then 1 else 0 := by
  have unrecorded : ∀ next : Reconstruction Time,
      ({ next with history := event :: reconstruction.history } : Reconstruction Time).callCount
        function = next.callCount function := fun _ => rfl
  rw [step, unrecorded]
  cases isEntry : event.kind.isEntry with
  | false => simp [callCount]
  | true =>
      rw [if_pos rfl, Bool.true_and, callCount, callCount]
      have counts : (reconstruction.enter rule event).callCounts =
          FirstSeen.record event.key.function 1 (fun count => count + 1)
            reconstruction.callCounts := rfl
      rw [counts]
      by_cases same : event.key.function = function
      · subst same
        rw [FirstSeen.find?_record_same]
        cases FirstSeen.find? event.key.function reconstruction.callCounts with
        | none => simp
        | some count => simp
      · rw [FirstSeen.find?_record_other (Ne.symm same)]
        simp [same]

/-- Calls of a function are counted by its entries. -/
theorem callCount_ofEvents
    (events : List (Event Time))
    (function : String) :
    (ofEvents rule events).callCount function =
      events.countP fun event => event.kind.isEntry && event.key.function = function := by
  induction events using List.reverseRecOn with
  | nil => rfl
  | append_singleton front event inductionHypothesis =>
      rw [ofEvents_append_singleton, List.countP_append, ← inductionHypothesis]
      exact (callCount_step rule _ event function).trans (by rw [List.countP_singleton])

/-- A key is known once it has entered a call. -/
theorem mem_keys_step
    (reconstruction : Reconstruction Time)
    (event : Event Time)
    (key : EventKey) :
    key ∈ (reconstruction.step rule event).keys ↔
      key ∈ reconstruction.keys ∨ event.kind.isEntry = true ∧ event.key = key := by
  have unrecorded : ∀ next : Reconstruction Time,
      ({ next with history := event :: reconstruction.history } : Reconstruction Time).keys =
        next.keys := fun _ => rfl
  rw [step, unrecorded]
  cases isEntry : event.kind.isEntry with
  | false => simp [keys]
  | true =>
      rw [if_pos rfl, and_iff_right rfl, eq_comm (a := event.key)]
      exact FirstSeen.mem_keys_record key event.key _ _ _

/-- The keys of a log are those of its entries. -/
theorem mem_keys_ofEvents
    (events : List (Event Time))
    (key : EventKey) :
    key ∈ (ofEvents rule events).keys ↔
      ∃ event ∈ events, event.kind.isEntry = true ∧ event.key = key := by
  induction events using List.reverseRecOn with
  | nil => simp [ofEvents, keys, empty, FirstSeen.keys]
  | append_singleton front event inductionHypothesis =>
      rw [ofEvents_append_singleton, mem_keys_step, inductionHypothesis]
      simp [or_and_right, exists_or]

/-- The completed calls are listed key by key. -/
theorem completed_eq
    (events : List (Event Time)) :
    (ofEvents rule events).completed =
      (ofEvents rule events).keys.flatMap fun key =>
        ((ofEvents rule events).callsOf key).map fun record => (key, record) := by
  have listed := FirstSeen.flatMap_eq_flatMap_keys (nodup_keys rule events) fun key numbers =>
    ((ofEvents rule events).completedOf numbers).map fun record => (key, record)
  rw [completed, listed, keys]
  apply List.flatMap_congr
  intro key _
  rw [callsOf]
  cases FirstSeen.find? key (ofEvents rule events).calls with
  | none => rfl
  | some numbers => rfl

/-- The open calls are counted key by key. -/
theorem openCount_eq
    (events : List (Event Time)) :
    (ofEvents rule events).openCount =
      ((ofEvents rule events).keys.flatMap fun key =>
        ((ofEvents rule events).recordsOf key).filter fun record => !record.isComplete).length := by
  have listed := FirstSeen.flatMap_eq_flatMap_keys (nodup_keys rule events) fun _ numbers =>
    (numbers.filterMap fun number => (ofEvents rule events).records[number]?).filter
      fun record => !record.isComplete
  rw [openCount, listed, keys]
  congr 1
  apply List.flatMap_congr
  intro key _
  rw [recordsOf, numbersOf]
  cases FirstSeen.find? key (ofEvents rule events).calls with
  | none => rfl
  | some numbers => rfl

end Counts

/-! ## Unmatched exits without parents -/

/-- Without parents a thread has a call open if its ledger has. -/
theorem stackOf_none_eq_nil_iff
    (events : List (Event Time))
    (thread : String) :
    (ofEvents ParentStrategy.none.rule events).stackOf thread = [] ↔
      (Ledger.ofEvents (events.filter fun event => event.thread = thread)).opened = [] := by
  obtain ⟨numbers, mirrors⟩ := exists_mirrors ParentStrategy.none.rule events thread
  obtain ⟨own, copies, split, marks, _, kept⟩ := mirrors.layered
  rw [inheritedOf_ofEvents_none, List.prefix_nil, List.reverse_eq_nil_iff, List.map_eq_nil_iff]
    at kept
  rw [split, kept, List.append_nil, ← List.length_eq_zero_iff, marks.length_eq,
    List.length_eq_zero_iff]

/-- What an event after some others adds to the unmatched exits: one, if it is an exit and
the ledger of its thread has no call open. -/
def unmatchedBy
    (front : List (Event Time))
    (event : Event Time) : Nat :=
  if event.kind.isEntry = false ∧
      (Ledger.ofEvents (front.filter fun other => other.thread = event.thread)).opened = [] then
    1
  else
    0

/-- Without parents the unmatched exits are those that the ledgers of the threads find nothing
open for. -/
theorem unmatched_none_append_singleton
    (front : List (Event Time))
    (event : Event Time) :
    (ofEvents ParentStrategy.none.rule (front ++ [event])).unmatched =
      (ofEvents ParentStrategy.none.rule front).unmatched + unmatchedBy front event := by
  have unrecorded : ∀ next : Reconstruction Time, ∀ history,
      ({ next with history := history } : Reconstruction Time).unmatched = next.unmatched :=
    fun _ _ => rfl
  rw [ofEvents_append_singleton, step, unrecorded]
  cases isEntry : event.kind.isEntry with
  | true => simp [unmatchedBy, isEntry]
  | false =>
      rw [if_neg Bool.false_ne_true, unmatched_leave, unmatchedBy, isEntry]
      simp only [stackOf_none_eq_nil_iff, true_and]

/-- An event adds to the unmatched exits of its own thread alone. -/
theorem unmatched_none_filter_append_singleton
    (front : List (Event Time))
    (event : Event Time)
    (thread : String) :
    (ofEvents ParentStrategy.none.rule
        ((front ++ [event]).filter fun other => other.thread = thread)).unmatched =
      (ofEvents ParentStrategy.none.rule
        (front.filter fun other => other.thread = thread)).unmatched +
        if thread = event.thread then unmatchedBy front event else 0 := by
  rw [List.filter_append]
  by_cases same : thread = event.thread
  · subst same
    rw [List.filter_cons_of_pos (by simp), List.filter_nil, unmatched_none_append_singleton,
      if_pos rfl, unmatchedBy, unmatchedBy, List.filter_filter]
    simp only [Bool.and_self]
  · rw [List.filter_cons_of_neg (by simpa using Ne.symm same), List.filter_nil,
      List.append_nil, if_neg same, add_zero]

/-- Without parents each thread has the unmatched exits that it has on its own. -/
theorem unmatched_none
    {events : List (Event Time)}
    {threads : Finset String}
    (complete : ∀ event ∈ events, event.thread ∈ threads) :
    (ofEvents ParentStrategy.none.rule events).unmatched =
      ∑ thread ∈ threads, (ofEvents ParentStrategy.none.rule
        (events.filter fun event => event.thread = thread)).unmatched := by
  induction events using List.reverseRecOn with
  | nil => exact (Finset.sum_eq_zero fun _ _ => rfl).symm
  | append_singleton front event inductionHypothesis =>
      obtain ⟨frontComplete, lastComplete⟩ := List.forall_mem_append.mp complete
      have known := lastComplete event (List.mem_singleton_self event)
      simp only [unmatched_none_filter_append_singleton]
      rw [Finset.sum_add_distrib, Finset.sum_ite_eq', if_pos known,
        ← inductionHypothesis frontComplete, unmatched_none_append_singleton]

/-! ## Interleavings -/

/-- Each thread has the same events in two logs, in the same order. -/
def SameByThread (first second : List (Event Time)) : Prop :=
  ∀ thread, (first.filter fun event => event.thread = thread) =
    second.filter fun event => event.thread = thread

section SameByThread

variable {first second : List (Event Time)}

omit [Arithmetic Time] in
/-- Interleavings have the same events in another order. -/
theorem SameByThread.perm
    [DecidableEq Time]
    (same : SameByThread first second) :
    first.Perm second := by
  rw [List.perm_iff_count]
  intro event
  have counted : ∀ log : List (Event Time),
      (log.filter fun other => other.thread = event.thread).count event = log.count event :=
    fun log => List.count_filter (decide_eq_true rfl)
  rw [← counted first, same event.thread, counted second]

variable (same : SameByThread first second)

include same

/-- Without parents interleavings have the same records of each key. -/
theorem SameByThread.recordsOf_none
    (key : EventKey) :
    (ofEvents ParentStrategy.none.rule first).recordsOf key =
      (ofEvents ParentStrategy.none.rule second).recordsOf key := by
  rw [Reconstruction.recordsOf_none, Reconstruction.recordsOf_none, same key.thread]

/-- Without parents interleavings have the same calls of each key. -/
theorem SameByThread.callsOf_none
    (key : EventKey) :
    (ofEvents ParentStrategy.none.rule first).callsOf key =
      (ofEvents ParentStrategy.none.rule second).callsOf key := by
  rw [callsOf_eq_filter, callsOf_eq_filter, same.recordsOf_none]

/-- Without parents interleavings have as many unmatched exits. -/
theorem SameByThread.unmatched_none :
    (ofEvents ParentStrategy.none.rule first).unmatched =
      (ofEvents ParentStrategy.none.rule second).unmatched := by
  have complete : ∀ event ∈ first ++ second,
      event.thread ∈ ((first ++ second).map Event.thread).toFinset := by
    intro event member
    rw [List.mem_toFinset]
    exact List.mem_map_of_mem member
  obtain ⟨inFirst, inSecond⟩ := List.forall_mem_append.mp complete
  rw [Reconstruction.unmatched_none inFirst, Reconstruction.unmatched_none inSecond]
  apply Finset.sum_congr rfl
  intro thread _
  rw [same thread]

variable [DecidableEq Time] (rule : ParentRule Time)

/-- Interleavings have the same keys; they may appear in another order. -/
theorem SameByThread.keys_perm :
    (ofEvents rule first).keys.Perm (ofEvents rule second).keys := by
  apply (List.perm_ext_iff_of_nodup (nodup_keys rule first) (nodup_keys rule second)).mpr
  intro key
  rw [← keys, ← keys, mem_keys_ofEvents, mem_keys_ofEvents]
  simp only [same.perm.mem_iff]

/-- Without parents interleavings have the same completed calls, key by key in another order. -/
theorem SameByThread.completed_perm :
    (ofEvents ParentStrategy.none.rule first).completed.Perm
      (ofEvents ParentStrategy.none.rule second).completed := by
  rw [completed_eq, completed_eq]
  refine (same.keys_perm _).flatMap fun key _ => List.Perm.of_eq ?_
  rw [same.callsOf_none]

/-- Without parents interleavings leave as many calls open. -/
theorem SameByThread.openCount_none :
    (ofEvents ParentStrategy.none.rule first).openCount =
      (ofEvents ParentStrategy.none.rule second).openCount := by
  rw [openCount_eq, openCount_eq]
  refine ((same.keys_perm _).flatMap fun key _ => List.Perm.of_eq ?_).length_eq
  rw [same.recordsOf_none]

/-- Without parents interleavings have the same resources, in whatever order. -/
theorem SameByThread.resources_perm :
    (ofEvents ParentStrategy.none.rule first).resources.Perm
      (ofEvents ParentStrategy.none.rule second).resources := by
  have counts : (ofEvents ParentStrategy.none.rule first).callCount =
      (ofEvents ParentStrategy.none.rule second).callCount := by
    funext function
    rw [callCount_ofEvents, callCount_ofEvents, same.perm.countP_eq]
  rw [resources, resources, counts]
  exact same.completed_perm.map _

end SameByThread

/-- The stacks of a log, and all that is made of them, depend only on what each thread
did. Without parents, logs in which each thread has the same events yield the same list
of stacks; so they have the same tree, the same picture and the same hot paths, and as
many completed calls, open calls and unmatched exits. -/
theorem ofResources_eq_of_sameByThread
    (first second : List (Event Rat))
    (same : SameByThread first second) :
    let earlier := ofEvents ParentStrategy.none.rule first
    let later := ofEvents ParentStrategy.none.rule second
    Stack.ofResources earlier.resources = Stack.ofResources later.resources ∧
    (∃ tree : Tree Rat, Tree.ofStacks (Stack.ofResources earlier.resources) = .ok tree ∧
      Tree.ofStacks (Stack.ofResources later.resources) = .ok tree) ∧
    (∀ [NumberText Rat] (options : DrawingOptions Rat),
      Picture.ofStacks options (Stack.ofResources earlier.resources) =
        Picture.ofStacks options (Stack.ofResources later.resources)) ∧
    (∀ count, HotPath.heaviest count (Stack.ofResources earlier.resources) =
      HotPath.heaviest count (Stack.ofResources later.resources)) ∧
    earlier.completedCount = later.completedCount ∧
    earlier.openCount = later.openCount ∧
    earlier.unmatched = later.unmatched := by
  intro earlier later
  have sameStacks : Stack.ofResources earlier.resources = Stack.ofResources later.resources :=
    Stack.ofResources_eq_of_perm same.resources_perm
  have positive : ∀ resource ∈ later.resources, 0 < resource.amount :=
    fun resource member => amount_pos_of_mem_resources member
  obtain ⟨tree, built, _⟩ := Tree.exists_ofResources positive
  refine ⟨sameStacks, ⟨tree, ?_, built⟩, ?_, ?_, same.completed_perm.length_eq,
    same.openCount_none, same.unmatched_none⟩
  · rw [sameStacks, built]
  · intro text options
    rw [sameStacks]
  · intro count
    rw [sameStacks]

/-- A thread that calls itself and leaves a call open while another one, with the same
functions, begins with an exit of its own. -/
def contendedLog : List (Event Rat) :=
  [ ⟨.started, ⟨⟨"a.py", "main", 1⟩, "1"⟩, 0, none⟩,
    ⟨.returned, ⟨⟨"a.py", "main", 1⟩, "2"⟩, 0, none⟩,
    ⟨.started, ⟨⟨"a.py", "main", 1⟩, "2"⟩, 2, none⟩,
    ⟨.started, ⟨⟨"a.py", "work", 7⟩, "1"⟩, 1, none⟩,
    ⟨.unwound, ⟨⟨"a.py", "main", 1⟩, "2"⟩, 5, none⟩,
    ⟨.returned, ⟨⟨"a.py", "work", 7⟩, "1"⟩, 3, none⟩ ]

/-- The events of `contendedLog`, one thread after the other. -/
def serialLog : List (Event Rat) :=
  (contendedLog.filter fun event => event.thread = "2") ++
    contendedLog.filter fun event => event.thread = "1"

theorem sameByThread_serialLog : SameByThread contendedLog serialLog := by
  intro thread
  by_cases isFirst : thread = "1"
  · subst isFirst
    rfl
  · by_cases isSecond : thread = "2"
    · subst isSecond
      rfl
    · simp [contendedLog, serialLog, Event.thread, Ne.symm isFirst, Ne.symm isSecond]

theorem ofResources_eq_of_sameByThread_serialLog :
    SameByThread contendedLog serialLog ∧
    let earlier := ofEvents ParentStrategy.none.rule contendedLog
    let later := ofEvents ParentStrategy.none.rule serialLog
    Stack.ofResources earlier.resources = Stack.ofResources later.resources ∧
    (∃ tree : Tree Rat, Tree.ofStacks (Stack.ofResources earlier.resources) = .ok tree ∧
      Tree.ofStacks (Stack.ofResources later.resources) = .ok tree) ∧
    (∀ [NumberText Rat] (options : DrawingOptions Rat),
      Picture.ofStacks options (Stack.ofResources earlier.resources) =
        Picture.ofStacks options (Stack.ofResources later.resources)) ∧
    (∀ count, HotPath.heaviest count (Stack.ofResources earlier.resources) =
      HotPath.heaviest count (Stack.ofResources later.resources)) ∧
    earlier.completedCount = later.completedCount ∧
    earlier.openCount = later.openCount ∧
    earlier.unmatched = later.unmatched :=
  ⟨sameByThread_serialLog,
    ofResources_eq_of_sameByThread contendedLog serialLog sameByThread_serialLog⟩

end Reconstruction
end FlameProfile
