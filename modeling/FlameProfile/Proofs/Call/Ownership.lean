import Mathlib
import FlameProfile.Proofs.Call.Tracking
import FlameProfile.Proofs.FirstSeen

/-!
# Numbers on stacks and in lists

The number of a record stands on at most one stack, once, and in the list of at most one
key, once. A listed record is open exactly as long as its number is on a stack. A number
that is on a stack and in no list belongs to a copy that a thread has inherited, so
without parents every number on a stack is listed.

What an entry and an exit do to the numbers is said once, by `EntersAs` and `LeavesAs`;
that the numbers are owned, and how many there are, follows from these two.
-/

namespace FlameProfile
namespace Reconstruction

variable {Time : Type}

/-- The numbers of the records on the stacks of all threads. -/
def stackNumbers (reconstruction : Reconstruction Time) : List Nat :=
  reconstruction.threads.flatMap fun entry => entry.2.stack.map OpenCall.record

/-- The numbers of the records in the lists of all keys. -/
def callNumbers (reconstruction : Reconstruction Time) : List Nat :=
  reconstruction.calls.flatMap fun entry => entry.2

/-- The keys that all threads together have inherited. -/
def inheritedKeys (reconstruction : Reconstruction Time) : List EventKey :=
  reconstruction.threads.flatMap fun entry => entry.2.inherited

/-! ## Copies -/

/-- Copies have numbers of their own. -/
theorem nodup_copyCalls
    {records : List (CallRecord Time)}
    {copied : List OpenCall}
    (distinct : (copied.map OpenCall.record).Nodup)
    (bounded : ∀ call ∈ copied, call.record < records.length)
    (stack : List OpenCall) :
    ((copyCalls records copied stack).1.map OpenCall.record).Nodup := by
  induction stack generalizing records copied with
  | nil => exact distinct
  | cons call inner inductionHypothesis =>
      rw [copyCalls]
      split
      next record _ =>
        apply inductionHypothesis
        · refine List.nodup_cons.mpr ⟨?_, distinct⟩
          intro member
          obtain ⟨other, otherMember, same⟩ := List.mem_map.mp member
          exact absurd same (bounded other otherMember).ne
        · intro other member
          rw [List.length_append, List.length_singleton]
          rcases List.mem_cons.mp member with rfl | old
          · exact Nat.lt_succ_self _
          · exact Nat.lt_succ_of_lt (bounded other old)
      next => exact inductionHypothesis distinct bounded

/-- A thread inherits copies with different numbers. -/
theorem nodup_spawn
    (rule : ParentRule Time)
    (reconstruction : Reconstruction Time)
    (thread : String) :
    ((reconstruction.spawn rule thread).1.stack.map OpenCall.record).Nodup :=
  nodup_copyCalls (by simp) (fun _ member => absurd member List.not_mem_nil) _

/-! ## What events do to the numbers -/

/-- Whether the record with a number is complete, if there is such a record. -/
def completeAt
    (reconstruction : Reconstruction Time)
    (number : Nat) : Option Bool :=
  reconstruction.records[number]?.map CallRecord.isComplete

/-- The numbers of records are those below their count. -/
theorem isSome_completeAt
    (reconstruction : Reconstruction Time)
    (number : Nat) :
    (reconstruction.completeAt number).isSome ↔ number < reconstruction.records.length := by
  simp [completeAt]

/-- An entry lists a new number and puts it on a stack, on top of the numbers of copies
if the thread has inherited any. All of them are new, and the new record is open. -/
structure EntersAs
    (before after : Reconstruction Time)
    (number : Nat)
    (copies : List Nat) : Prop where
  listed : after.callNumbers.Perm (before.callNumbers ++ [number])
  stacked : after.stackNumbers.Perm (before.stackNumbers ++ number :: copies)
  inherited : after.inheritedKeys.length = before.inheritedKeys.length + copies.length
  distinct : (number :: copies).Nodup
  fresh : ∀ new ∈ number :: copies, before.records.length ≤ new ∧ new < after.records.length
  opened : after.completeAt number = some false
  kept : ∀ old < before.records.length, after.completeAt old = before.completeAt old

/-- An exit takes a number from a stack and completes its record. -/
structure LeavesAs
    (before after : Reconstruction Time)
    (number : Nat) : Prop where
  listed : after.callNumbers = before.callNumbers
  stacked : before.stackNumbers.Perm (number :: after.stackNumbers)
  inherited : after.inheritedKeys.length = before.inheritedKeys.length
  records : after.records.length = before.records.length
  ended : before.completeAt number ≠ none → after.completeAt number = some true
  kept : ∀ other, other ≠ number → after.completeAt other = before.completeAt other

/-! ## Owned numbers -/

/-- Every number is on one stack at most and in one list at most, each time once, and a
listed record is open exactly if its number is on a stack. -/
structure Owned (reconstruction : Reconstruction Time) : Prop where
  stacked : reconstruction.stackNumbers.Nodup
  listed : reconstruction.callNumbers.Nodup
  stackedBound : ∀ number ∈ reconstruction.stackNumbers, number < reconstruction.records.length
  listedBound : ∀ number ∈ reconstruction.callNumbers, number < reconstruction.records.length
  open_iff : ∀ number ∈ reconstruction.callNumbers,
    reconstruction.completeAt number = some false ↔ number ∈ reconstruction.stackNumbers

/-- At first there are no numbers to own. -/
theorem owned_empty : (empty : Reconstruction Time).Owned where
  stacked := List.nodup_nil
  listed := List.nodup_nil
  stackedBound _ member := absurd member List.not_mem_nil
  listedBound _ member := absurd member List.not_mem_nil
  open_iff _ member := absurd member List.not_mem_nil

section Steps

variable {before after : Reconstruction Time} {number : Nat} {copies : List Nat}

/-- An entry keeps the numbers owned, since those that it hands out are new. -/
theorem Owned.entersAs
    (owned : before.Owned)
    (enters : EntersAs before after number copies) :
    after.Owned := by
  have longer : before.records.length ≤ after.records.length := by
    obtain ⟨above, inside⟩ := enters.fresh number List.mem_cons_self
    exact above.trans inside.le
  constructor
  case stacked =>
    refine (enters.stacked.nodup_iff).mpr (List.nodup_append.mpr ⟨owned.stacked,
      enters.distinct, ?_⟩)
    intro old oldMember new newMember
    exact (Nat.lt_of_lt_of_le (owned.stackedBound old oldMember)
      (enters.fresh new newMember).1).ne
  case listed =>
    refine (enters.listed.nodup_iff).mpr (List.nodup_append.mpr ⟨owned.listed,
      List.nodup_singleton number, ?_⟩)
    intro old oldMember new newMember
    rw [List.mem_singleton.mp newMember]
    exact (Nat.lt_of_lt_of_le (owned.listedBound old oldMember)
      (enters.fresh number List.mem_cons_self).1).ne
  case stackedBound =>
    intro other member
    rcases List.mem_append.mp (enters.stacked.mem_iff.mp member) with old | new
    · exact (owned.stackedBound other old).trans_le longer
    · exact (enters.fresh other new).2
  case listedBound =>
    intro other member
    rcases List.mem_append.mp (enters.listed.mem_iff.mp member) with old | new
    · exact (owned.listedBound other old).trans_le longer
    · rw [List.mem_singleton.mp new]
      exact (enters.fresh number List.mem_cons_self).2
  case open_iff =>
    intro other member
    rw [enters.stacked.mem_iff, List.mem_append]
    rcases List.mem_append.mp (enters.listed.mem_iff.mp member) with old | new
    · have inside := owned.listedBound other old
      have notNew : other ∉ number :: copies :=
        fun new => absurd (enters.fresh other new).1 (Nat.not_le.mpr inside)
      rw [enters.kept other inside, owned.open_iff other old, or_iff_left notNew]
    · rw [List.mem_singleton.mp new, enters.opened]
      simp

/-- An exit keeps the numbers owned, since it completes the record that it takes from a stack.
-/
theorem Owned.leavesAs
    (owned : before.Owned)
    (leaves : LeavesAs before after number) :
    after.Owned := by
  obtain ⟨gone, distinct⟩ := List.nodup_cons.mp (leaves.stacked.nodup_iff.mp owned.stacked)
  have inside : number < before.records.length :=
    owned.stackedBound number (leaves.stacked.mem_iff.mpr List.mem_cons_self)
  constructor
  case stacked => exact distinct
  case listed => exact leaves.listed ▸ owned.listed
  case stackedBound =>
    intro other member
    rw [leaves.records]
    exact owned.stackedBound other (leaves.stacked.mem_iff.mpr (List.mem_cons_of_mem _ member))
  case listedBound =>
    rw [leaves.listed, leaves.records]
    exact owned.listedBound
  case open_iff =>
    intro other member
    rw [leaves.listed] at member
    by_cases same : other = number
    · subst same
      have there := (isSome_completeAt before other).mpr inside
      rw [leaves.ended (Option.isSome_iff_ne_none.mp there)]
      simp [gone]
    · rw [leaves.kept other same, owned.open_iff other member, leaves.stacked.mem_iff,
        List.mem_cons, or_iff_right same]

end Steps

/-! ## Entries -/

variable [Arithmetic Time]

section Enter

variable {rule : ParentRule Time} {reconstruction : Reconstruction Time} {event : Event Time}
  {state : ThreadState} {records : List (CallRecord Time)}

/-- An entry adds one number to the lists of all keys. -/
theorem callNumbers_enter
    (entered : reconstruction.threadAtEntry rule event.thread = (state, records)) :
    (reconstruction.enter rule event).callNumbers.Perm
      (reconstruction.callNumbers ++ [records.length]) := by
  have listed := FirstSeen.flatMap_record_perm (fun numbers : List Nat => numbers) event.key
    [records.length] (fun numbers => numbers ++ [records.length]) reconstruction.calls
  rw [callNumbers, enter, entered, callNumbers]
  cases found : FirstSeen.find? event.key reconstruction.calls with
  | none => simpa [found] using listed
  | some numbers =>
      rw [found] at listed
      refine (List.perm_append_right_iff numbers).mp (listed.trans ?_)
      rw [List.append_assoc]
      exact List.perm_append_comm.append_left _

/-- An entry changes the state of its own thread, which gets one more open call. -/
theorem threads_enter
    (entered : reconstruction.threadAtEntry rule event.thread = (state, records)) :
    (reconstruction.enter rule event).threads =
      FirstSeen.record event.thread
        { state with stack := ⟨event.key, records.length⟩ :: state.stack }
        (fun _ => { state with stack := ⟨event.key, records.length⟩ :: state.stack })
        reconstruction.threads := by
  rw [enter, entered]

/-- What the threads hold together changes by an entry as what its thread holds does. -/
theorem flatMap_threads_enter
    {Item : Type}
    (entered : reconstruction.threadAtEntry rule event.thread = (state, records))
    (items : ThreadState -> List Item) :
    (((reconstruction.enter rule event).threads.flatMap fun entry => items entry.2) ++
        (reconstruction.thread? event.thread).elim [] items).Perm
      ((reconstruction.threads.flatMap fun entry => items entry.2) ++
        items { state with stack := ⟨event.key, records.length⟩ :: state.stack }) := by
  rw [threads_enter entered]
  refine (FirstSeen.flatMap_record_perm items _ _ _ _).trans (List.Perm.of_eq ?_)
  cases FirstSeen.find? event.thread reconstruction.threads with
  | none => rfl
  | some old => rfl

/-- The record that an entry opens is open. -/
theorem completeAt_enter_new
    (entered : reconstruction.threadAtEntry rule event.thread = (state, records)) :
    (reconstruction.enter rule event).completeAt records.length = some false := by
  rw [completeAt, records_enter entered, List.getElem?_concat_length]
  rfl

/-- An entry completes no record that there was, and opens none of them again. -/
theorem completeAt_enter_old
    {more : List (CallRecord Time)}
    (entered : reconstruction.threadAtEntry rule event.thread =
      (state, reconstruction.records ++ more))
    {old : Nat}
    (inside : old < reconstruction.records.length) :
    (reconstruction.enter rule event).completeAt old = reconstruction.completeAt old := by
  rw [completeAt, records_enter entered, List.append_assoc, List.getElem?_append_left inside,
    completeAt]

/-- The entry of a thread that is known makes no copies. -/
theorem entersAs_of_known
    (entered : reconstruction.threadAtEntry rule event.thread =
      (state, reconstruction.records))
    (known : reconstruction.thread? event.thread = some state) :
    EntersAs reconstruction (reconstruction.enter rule event) reconstruction.records.length [] := by
  have extended : reconstruction.threadAtEntry rule event.thread =
      (state, reconstruction.records ++ []) := by rw [entered, List.append_nil]
  constructor
  case listed => exact callNumbers_enter entered
  case stacked =>
    have stacked := flatMap_threads_enter entered fun state => state.stack.map OpenCall.record
    rw [known] at stacked
    refine (List.perm_append_right_iff (state.stack.map OpenCall.record)).mp ?_
    rw [List.append_assoc]
    exact stacked
  case inherited =>
    have inherited := (flatMap_threads_enter entered ThreadState.inherited).length_eq
    rw [List.length_append, List.length_append, known] at inherited
    exact Nat.add_right_cancel inherited
  case distinct => exact List.nodup_singleton _
  case fresh =>
    intro new member
    rw [List.mem_singleton.mp member, records_enter entered]
    simp
  case opened => exact completeAt_enter_new entered
  case kept => exact fun old inside => completeAt_enter_old extended inside

omit [Arithmetic Time] in
/-- A thread that is not known is made at its entry. -/
theorem eq_spawn_of_unknown
    (entered : reconstruction.threadAtEntry rule event.thread = (state, records))
    (unknown : reconstruction.thread? event.thread = none) :
    state = (reconstruction.spawn rule event.thread).1 := by
  rw [threadAtEntry, unknown] at entered
  exact (congrArg Prod.fst entered).symm

/-- The first entry of a thread puts the copies that it has inherited on its stack. -/
theorem entersAs_of_spawned
    {more : List (CallRecord Time)}
    (entered : reconstruction.threadAtEntry rule event.thread =
      (state, reconstruction.records ++ more))
    (unknown : reconstruction.thread? event.thread = none)
    (keys : state.inherited = (state.stack.map OpenCall.key).reverse)
    (numbered : ∀ call ∈ state.stack, reconstruction.records.length ≤ call.record ∧
      call.record < (reconstruction.records ++ more).length) :
    EntersAs reconstruction (reconstruction.enter rule event)
      (reconstruction.records ++ more).length (state.stack.map OpenCall.record) := by
  have spawned := eq_spawn_of_unknown entered unknown
  constructor
  case listed => exact callNumbers_enter entered
  case stacked =>
    have stacked := flatMap_threads_enter entered fun state => state.stack.map OpenCall.record
    rwa [unknown, Option.elim_none, List.append_nil] at stacked
  case inherited =>
    have inherited := (flatMap_threads_enter entered ThreadState.inherited).length_eq
    rw [List.length_append, List.length_append, unknown, keys, List.length_reverse,
      List.length_map] at inherited
    rwa [List.length_map]
  case distinct =>
    refine List.nodup_cons.mpr ⟨?_, spawned ▸ nodup_spawn rule reconstruction event.thread⟩
    intro member
    obtain ⟨call, onStack, same⟩ := List.mem_map.mp member
    exact absurd same (numbered call onStack).2.ne
  case fresh =>
    intro new member
    rw [records_enter entered, List.length_append]
    rcases List.mem_cons.mp member with rfl | copied
    · simp
    · obtain ⟨call, onStack, rfl⟩ := List.mem_map.mp copied
      exact ⟨(numbered call onStack).1, Nat.lt_succ_of_lt (numbered call onStack).2⟩
  case opened => exact completeAt_enter_new entered
  case kept => exact fun old inside => completeAt_enter_old entered inside

/-- Every entry hands out new numbers, without a parent only its own. -/
theorem exists_entersAs
    (rule : ParentRule Time)
    (reconstruction : Reconstruction Time)
    (event : Event Time) :
    ∃ number copies, EntersAs reconstruction (reconstruction.enter rule event) number copies ∧
      (rule = ParentStrategy.none.rule → copies = []) := by
  obtain ⟨state, more, entered, origin⟩ := exists_entersWith rule reconstruction event.thread
  rcases origin with ⟨known, rfl⟩ | ⟨unknown, keys, numbered⟩
  · rw [List.append_nil] at entered
    exact ⟨_, [], entersAs_of_known entered known, fun _ => rfl⟩
  · refine ⟨_, _, entersAs_of_spawned entered unknown keys numbered, ?_⟩
    rintro rfl
    rw [eq_spawn_of_unknown entered unknown, spawn_none]
    rfl

end Enter

/-! ## Exits -/

section Leave

variable {reconstruction : Reconstruction Time} {event : Event Time} {ended : OpenCall}
  {below : List OpenCall}

/-- An exit leaves the lists of all keys. -/
theorem callNumbers_leave
    (reconstruction : Reconstruction Time)
    (event : Event Time) :
    (reconstruction.leave event).callNumbers = reconstruction.callNumbers := by
  rw [callNumbers, calls_leave, callNumbers]

/-- To charge a record completes none and opens none. -/
theorem map_isComplete_charge
    (number : Nat)
    (time : Time)
    (records : List (CallRecord Time)) :
    (records.modify number fun outer => outer.charge time).map CallRecord.isComplete =
      records.map CallRecord.isComplete := by
  apply List.ext_getElem?
  intro place
  rw [List.getElem?_map, List.getElem?_map, List.getElem?_modify]
  cases records[place]? with
  | none => rfl
  | some record => by_cases here : number = place <;> simp [here]

/-- To settle a call is to complete its record and no other one. -/
theorem map_isComplete_settle
    {records : List (CallRecord Time)}
    {record : CallRecord Time}
    (found : records[ended.record]? = some record)
    (event : Event Time)
    (below : List OpenCall) :
    (settle records event ended below).map CallRecord.isComplete =
      (records.map CallRecord.isComplete).set ended.record true := by
  have completed : (records.modify ended.record fun record =>
      record.settle event.time (raised event)).map CallRecord.isComplete =
        (records.map CallRecord.isComplete).set ended.record true := by
    apply List.ext_getElem?
    intro place
    rw [List.getElem?_map, List.getElem?_modify, List.getElem?_set, List.getElem?_map]
    by_cases here : ended.record = place
    · rw [← here, found]
      simp [(List.getElem?_eq_some_iff.mp found).1]
    · simp [here]
  rw [settle_eq found]
  cases below with
  | nil => exact completed
  | cons caller rest => exact (map_isComplete_charge _ _ _).trans completed

/-- What the threads hold together changes by an exit as what its thread holds does. -/
theorem flatMap_threads_leave
    {parent : Option String}
    {inherited : List EventKey}
    (known : reconstruction.thread? event.thread = some ⟨parent, inherited, ended :: below⟩)
    {Item : Type}
    (items : ThreadState -> List Item) :
    (((reconstruction.leave event).threads.flatMap fun entry => items entry.2) ++
        items ⟨parent, inherited, ended :: below⟩).Perm
      ((reconstruction.threads.flatMap fun entry => items entry.2) ++
        items ⟨parent, inherited, below⟩) := by
  have threads : (reconstruction.leave event).threads =
      FirstSeen.record event.thread ⟨parent, inherited, below⟩
        (fun _ => ⟨parent, inherited, below⟩) reconstruction.threads := by
    rw [leave, known]
  have found : FirstSeen.find? event.thread reconstruction.threads =
      some ⟨parent, inherited, ended :: below⟩ := known
  have written := FirstSeen.flatMap_record_perm items event.thread ⟨parent, inherited, below⟩
    (fun _ => ⟨parent, inherited, below⟩) reconstruction.threads
  rwa [found, Option.elim_some, Option.elim_some, ← threads] at written

/-- An exit completes the record of the call that it ends and no other one. -/
theorem completeAt_leave
    (someOpen : reconstruction.stackOf event.thread = ended :: below)
    {record : CallRecord Time}
    (found : reconstruction.records[ended.record]? = some record)
    (number : Nat) :
    (reconstruction.leave event).completeAt number =
      ((reconstruction.records.map CallRecord.isComplete).set ended.record true)[number]? := by
  rw [completeAt, (leave_of_stackOf_eq_cons someOpen).1, ← List.getElem?_map,
    map_isComplete_settle found]

/-- An exit that finds an open call takes the number of the innermost one. -/
theorem leavesAs
    (someOpen : reconstruction.stackOf event.thread = ended :: below) :
    LeavesAs reconstruction (reconstruction.leave event) ended.record := by
  obtain ⟨parent, inherited, known⟩ := exists_thread?_eq_some someOpen
  have settled := (leave_of_stackOf_eq_cons someOpen).1
  constructor
  case listed => exact callNumbers_leave reconstruction event
  case stacked =>
    refine (List.perm_append_right_iff (below.map OpenCall.record)).mp ?_
    refine (flatMap_threads_leave known fun state => state.stack.map OpenCall.record).symm.trans ?_
    exact List.perm_middle
  case inherited =>
    have lengths := (flatMap_threads_leave known ThreadState.inherited).length_eq
    rw [List.length_append, List.length_append] at lengths
    exact Nat.add_right_cancel lengths
  case records => rw [settled, length_settle]
  case ended =>
    intro there
    rw [completeAt] at there
    obtain ⟨record, found⟩ : ∃ record, reconstruction.records[ended.record]? = some record :=
      Option.ne_none_iff_exists'.mp fun missing => there (by rw [missing]; rfl)
    have inside := (List.getElem?_eq_some_iff.mp found).1
    rw [completeAt_leave someOpen found, List.getElem?_set_self (by rwa [List.length_map])]
  case kept =>
    intro other different
    cases found : reconstruction.records[ended.record]? with
    | none => rw [completeAt, settled, settle, found, completeAt]
    | some record =>
        rw [completeAt_leave someOpen found, List.getElem?_set_ne (Ne.symm different),
          List.getElem?_map, completeAt]

end Leave

/-! ## Whole logs -/

/-- What holds of the empty reconstruction and is kept by entries and exits, whatever
their history, holds of every log. -/
theorem ofEvents_induction
    {rule : ParentRule Time}
    (property : List (Event Time) -> Reconstruction Time -> Prop)
    (initial : property [] empty)
    (unrecorded : ∀ events reconstruction history, property events reconstruction →
      property events { reconstruction with history := history })
    (enters : ∀ front event, event.kind.isEntry = true → property front (ofEvents rule front) →
      property (front ++ [event]) ((ofEvents rule front).enter rule event))
    (leaves : ∀ front event, event.kind.isEntry = false → property front (ofEvents rule front) →
      property (front ++ [event]) ((ofEvents rule front).leave event))
    (events : List (Event Time)) :
    property events (ofEvents rule events) := by
  induction events using List.reverseRecOn with
  | nil => exact initial
  | append_singleton front event inductionHypothesis =>
      rw [ofEvents_append_singleton, step]
      apply unrecorded
      cases isEntry : event.kind.isEntry with
      | true => exact enters front event isEntry inductionHypothesis
      | false => exact leaves front event isEntry inductionHypothesis

/-- After every log the numbers are owned. -/
theorem owned_ofEvents
    (rule : ParentRule Time)
    (events : List (Event Time)) :
    (ofEvents rule events).Owned := by
  apply ofEvents_induction fun _ reconstruction => reconstruction.Owned
  case initial => exact owned_empty
  case unrecorded =>
    intro _ reconstruction history owned
    exact ⟨owned.stacked, owned.listed, owned.stackedBound, owned.listedBound, owned.open_iff⟩
  case enters =>
    intro front event _ owned
    obtain ⟨number, copies, enters, _⟩ := exists_entersAs rule (ofEvents rule front) event
    exact owned.entersAs enters
  case leaves =>
    intro front event _ owned
    cases stack : (ofEvents rule front).stackOf event.thread with
    | nil =>
        rw [leave_of_stackOf_eq_nil stack]
        exact ⟨owned.stacked, owned.listed, owned.stackedBound, owned.listedBound, owned.open_iff⟩
    | cons ended below => exact owned.leavesAs (leavesAs stack)

/-- Every thread has one state. -/
theorem nodup_threads
    (rule : ParentRule Time)
    (events : List (Event Time)) :
    (FirstSeen.keys (ofEvents rule events).threads).Nodup := by
  apply ofEvents_induction fun _ reconstruction => (FirstSeen.keys reconstruction.threads).Nodup
  case initial => exact List.nodup_nil
  case unrecorded => exact fun _ _ _ distinct => distinct
  case enters =>
    intro front event _ distinct
    exact FirstSeen.nodup_keys_record distinct _ _ _
  case leaves =>
    intro front event _ distinct
    unfold leave
    split
    next => exact FirstSeen.nodup_keys_record distinct _ _ _
    next => exact distinct

/-- Without parents every number on a stack is listed. -/
theorem stackNumbers_none_subset (events : List (Event Time)) :
    (ofEvents ParentStrategy.none.rule events).stackNumbers ⊆
      (ofEvents ParentStrategy.none.rule events).callNumbers := by
  apply ofEvents_induction fun _ reconstruction =>
    reconstruction.stackNumbers ⊆ reconstruction.callNumbers
  case initial => exact List.nil_subset _
  case unrecorded => exact fun _ _ _ subset => subset
  case enters =>
    intro front event _ subset number member
    obtain ⟨new, copies, enters, noCopies⟩ := exists_entersAs ParentStrategy.none.rule
      (ofEvents ParentStrategy.none.rule front) event
    rw [noCopies rfl] at enters
    rw [enters.stacked.mem_iff, List.mem_append] at member
    rw [enters.listed.mem_iff, List.mem_append]
    exact member.imp_left fun old => subset old
  case leaves =>
    intro front event _ subset number member
    cases stack : (ofEvents ParentStrategy.none.rule front).stackOf event.thread with
    | nil =>
        rw [leave_of_stackOf_eq_nil stack] at member ⊢
        exact subset member
    | cons ended below =>
        have leaves := leavesAs stack
        rw [leaves.listed]
        exact subset (leaves.stacked.mem_iff.mpr (List.mem_cons_of_mem _ member))

end Reconstruction
end FlameProfile
