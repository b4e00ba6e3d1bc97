import Mathlib
import FlameProfile.Proofs.Call.Tracking

/-!
# A thread mirrors its ledger

Whatever other threads do, and whatever a thread inherits, the reconstruction of
a log holds the ledger of each of its threads: the records of the calls of the
thread are those of the ledger, the stack of the thread has the open calls of the
ledger on top of copies, and no other stack has one of their numbers on it.
`Mirrors` is kept by every event of the log, whatever the rule for parents is.
-/

namespace FlameProfile
namespace Reconstruction

variable {Time : Type}

/-- An open call has the number and the key of a place in a ledger. -/
def Marks
    (numbers : List Nat)
    (keys : List EventKey)
    (call : OpenCall)
    (place : Nat) : Prop :=
  numbers[place]? = some call.record ∧ keys[place]? = some call.key

theorem Marks.append
    {numbers : List Nat}
    {keys : List EventKey}
    {call : OpenCall}
    {place : Nat}
    (marks : Marks numbers keys call place)
    (moreNumbers : List Nat)
    (moreKeys : List EventKey) :
    Marks (numbers ++ moreNumbers) (keys ++ moreKeys) call place := by
  obtain ⟨number, key⟩ := marks
  have numberInside := (List.getElem?_eq_some_iff.mp number).1
  have keyInside := (List.getElem?_eq_some_iff.mp key).1
  exact ⟨by rw [List.getElem?_append_left numberInside, number],
    by rw [List.getElem?_append_left keyInside, key]⟩

/-- The keys of marked places are the keys of the open calls. -/
theorem filterMap_marks
    {numbers : List Nat}
    {keys : List EventKey}
    {own : List OpenCall}
    {opened : List Nat}
    (marks : List.Forall₂ (Marks numbers keys) own opened) :
    opened.filterMap (fun place => keys[place]?) = own.map OpenCall.key := by
  induction marks with
  | nil => rfl
  | cons head tail inductionHypothesis =>
      rw [List.filterMap_cons_some head.2, inductionHypothesis, List.map_cons]

/-- A stack has the open calls of a ledger on top of copies with foreign
numbers, whose keys are inherited. -/
def Layered
    (numbers : List Nat)
    (ledger : Ledger Time)
    (inherited : List EventKey)
    (stack : List OpenCall) : Prop :=
  ∃ own copies, stack = own ++ copies ∧
    List.Forall₂ (Marks numbers ledger.keys) own ledger.opened ∧
    (∀ call ∈ copies, call.record ∉ numbers) ∧
    (copies.map OpenCall.key).reverse <+: inherited

/-- A reconstruction holds the ledger of a thread in the records with the given
numbers. -/
structure Mirrors
    (thread : String)
    (reconstruction : Reconstruction Time)
    (ledger : Ledger Time)
    (numbers : List Nat) : Prop where
  bounded : ∀ other, ∀ call ∈ reconstruction.stackOf other,
    call.record < reconstruction.records.length
  foreign : ∀ other, other ≠ thread → ∀ call ∈ reconstruction.stackOf other,
    call.record ∉ numbers
  nodup : numbers.Nodup
  tracks : List.Forall₂ (Tracks reconstruction.records (reconstruction.inheritedOf thread))
    numbers ledger.calls
  numbered : ∀ key : EventKey, key.thread = thread → reconstruction.numbersOf key =
    ((numbers.zip ledger.keys).filter fun entry => entry.2 = key).map Prod.fst
  layered : Layered numbers ledger (reconstruction.inheritedOf thread)
    (reconstruction.stackOf thread)

theorem mirrors_empty (thread : String) :
    Mirrors thread (empty : Reconstruction Time) Ledger.empty [] where
  bounded _ _ member := absurd member List.not_mem_nil
  foreign _ _ _ member := absurd member List.not_mem_nil
  nodup := List.nodup_nil
  tracks := List.Forall₂.nil
  numbered _ _ := rfl
  layered := ⟨[], [], rfl, List.Forall₂.nil, by simp, List.nil_prefix⟩

variable [Arithmetic Time] {thread : String} {reconstruction : Reconstruction Time}
  {ledger : Ledger Time} {numbers : List Nat} {event : Event Time}

/-! ## Events of other threads -/

theorem Mirrors.bounded_enter
    (mirrors : Mirrors thread reconstruction ledger numbers)
    (rule : ParentRule Time)
    (event : Event Time) :
    ∀ other, ∀ call ∈ (reconstruction.enter rule event).stackOf other,
      call.record < (reconstruction.enter rule event).records.length := by
  obtain ⟨⟨more, records⟩, fresh⟩ := enter_grows rule reconstruction event
  have longer : reconstruction.records.length ≤
      (reconstruction.enter rule event).records.length := by
    rw [records, List.length_append]
    exact Nat.le_add_right _ _
  intro other call member
  by_cases same : other = event.thread
  · subst same
    rcases fresh call member with old | ⟨_, inside⟩
    · exact (mirrors.bounded _ call old).trans_le longer
    · exact inside
  · rw [stackOf_enter_other rule reconstruction same] at member
    exact (mirrors.bounded other call member).trans_le longer

theorem Mirrors.enter_other
    (mirrors : Mirrors thread reconstruction ledger numbers)
    (rule : ParentRule Time)
    (different : thread ≠ event.thread) :
    Mirrors thread (reconstruction.enter rule event) ledger numbers := by
  obtain ⟨⟨more, records⟩, fresh⟩ := enter_grows rule reconstruction event
  constructor
  case bounded => exact mirrors.bounded_enter rule event
  case foreign =>
    intro other otherDifferent call member
    by_cases same : other = event.thread
    · subst same
      rcases fresh call member with old | ⟨above, _⟩
      · exact mirrors.foreign _ otherDifferent call old
      · intro own
        exact absurd (lt_length_of_mem mirrors.tracks own) (Nat.not_lt.mpr above)
    · rw [stackOf_enter_other rule reconstruction same] at member
      exact mirrors.foreign other otherDifferent call member
  case nodup => exact mirrors.nodup
  case tracks =>
    rw [records, inheritedOf_enter_other rule reconstruction different]
    exact mirrors.tracks.imp fun number call tracked => tracked.append more
  case numbered =>
    intro key keyThread
    have otherKey : key ≠ event.key := by
      rintro rfl
      exact different keyThread.symm
    rw [numbersOf_enter_other rule reconstruction otherKey]
    exact mirrors.numbered key keyThread
  case layered =>
    rw [stackOf_enter_other rule reconstruction different,
      inheritedOf_enter_other rule reconstruction different]
    exact mirrors.layered

theorem Mirrors.bounded_leave
    (mirrors : Mirrors thread reconstruction ledger numbers)
    (event : Event Time) :
    ∀ other, ∀ call ∈ (reconstruction.leave event).stackOf other,
      call.record < (reconstruction.leave event).records.length := by
  intro other call member
  have inside := mirrors.bounded other call (mem_stackOf_leave member)
  cases stack : reconstruction.stackOf event.thread with
  | nil => rwa [leave_of_stackOf_eq_nil stack]
  | cons ended below => rwa [(leave_of_stackOf_eq_cons stack).1, length_settle]

theorem Mirrors.leave_other
    (mirrors : Mirrors thread reconstruction ledger numbers)
    (different : thread ≠ event.thread) :
    Mirrors thread (reconstruction.leave event) ledger numbers := by
  constructor
  case bounded => exact mirrors.bounded_leave event
  case foreign =>
    intro other otherDifferent call member
    exact mirrors.foreign other otherDifferent call (mem_stackOf_leave member)
  case nodup => exact mirrors.nodup
  case tracks =>
    rw [inheritedOf_leave]
    cases stack : reconstruction.stackOf event.thread with
    | nil =>
        rw [leave_of_stackOf_eq_nil stack]
        exact mirrors.tracks
    | cons ended below =>
        rw [(leave_of_stackOf_eq_cons stack).1]
        apply tracks_settle_foreign mirrors.tracks
        rw [← stack]
        exact mirrors.foreign event.thread different.symm
  case numbered =>
    intro key keyThread
    rw [numbersOf_leave]
    exact mirrors.numbered key keyThread
  case layered =>
    rw [stackOf_leave_other different, inheritedOf_leave]
    exact mirrors.layered

/-! ## Events of the thread itself -/

omit [Arithmetic Time] in
/-- At an entry the stack of the thread is in layers, also if it has just
inherited all of it. -/
theorem Mirrors.layered_atEntry
    (mirrors : Mirrors thread reconstruction ledger numbers)
    {state : ThreadState}
    {more : List (CallRecord Time)}
    (origin : reconstruction.EntersWith thread state more) :
    Layered numbers ledger state.inherited state.stack ∧
      reconstruction.inheritedOf thread <+: state.inherited ∧
      ∀ call ∈ state.stack, call.record < (reconstruction.records ++ more).length := by
  have layered := mirrors.layered
  rcases origin with ⟨known, rfl⟩ | ⟨unknown, inherited, numbered⟩
  · have bounded := mirrors.bounded thread
    rw [stackOf, known] at bounded
    rw [stackOf, inheritedOf, known] at layered
    rw [inheritedOf, known, List.append_nil]
    exact ⟨layered, List.prefix_rfl, bounded⟩
  · obtain ⟨own, copies, split, marks, _, _⟩ := layered
    rw [stackOf, unknown] at split
    obtain ⟨rfl, rfl⟩ := List.nil_eq_append_iff.mp split
    rw [inheritedOf, unknown]
    refine ⟨⟨[], state.stack, rfl, marks, ?_, ?_⟩, List.nil_prefix,
      fun call member => (numbered call member).2⟩
    · intro call member own
      exact absurd (lt_length_of_mem mirrors.tracks own) (Nat.not_lt.mpr (numbered call member).1)
    · rw [inherited]

/-- The numbers of a key after one more entry. -/
theorem numbered_append
    {numbers : List Nat}
    {keys : List EventKey}
    (sameLength : numbers.length = keys.length)
    (number : Nat)
    (entered key : EventKey) :
    (((numbers ++ [number]).zip (keys ++ [entered])).filter fun entry => entry.2 = key).map
        Prod.fst =
      ((numbers.zip keys).filter fun entry => entry.2 = key).map Prod.fst ++
        if entered = key then [number] else [] := by
  rw [List.zip_append sameLength, List.filter_append, List.map_append]
  by_cases same : entered = key
  · simp [same]
  · simp [same]

/-- The call that is entered lies on top of what is open. -/
theorem Layered.enter
    {inherited : List EventKey}
    {stack : List OpenCall}
    (layered : Layered numbers ledger inherited stack)
    (sameLength : numbers.length = ledger.calls.length)
    {number : Nat}
    (fresh : ∀ call ∈ stack, call.record ≠ number)
    (event : Event Time) :
    Layered (numbers ++ [number]) (ledger.enter event) inherited
      (⟨event.key, number⟩ :: stack) := by
  obtain ⟨own, copies, rfl, marks, copiesForeign, kept⟩ := layered
  refine ⟨⟨event.key, number⟩ :: own, copies, rfl, ?_, ?_, kept⟩
  · rw [Ledger.keys_enter]
    refine List.Forall₂.cons ⟨?_, ?_⟩ (marks.imp fun call place marked => marked.append _ _)
    · rw [← sameLength]
      exact List.getElem?_concat_length
    · rw [← Ledger.length_keys]
      exact List.getElem?_concat_length
  · intro call member
    rw [List.mem_append, List.mem_singleton, not_or]
    exact ⟨copiesForeign call member, fresh call (List.mem_append_right own member)⟩

theorem Mirrors.enter_own
    (mirrors : Mirrors event.thread reconstruction ledger numbers)
    (rule : ParentRule Time) :
    ∃ number, Mirrors event.thread (reconstruction.enter rule event) (ledger.enter event)
      (numbers ++ [number]) := by
  obtain ⟨state, more, entered, origin⟩ := exists_entersWith rule reconstruction event.thread
  obtain ⟨layered, inherits, bounded⟩ := mirrors.layered_atEntry origin
  have ⟨own, copies, split, marks, _, kept⟩ := layered
  have sameLength : numbers.length = ledger.keys.length := by
    rw [Ledger.length_keys, mirrors.tracks.length_eq]
  have stateKeys : state.keys = (copies.map OpenCall.key).reverse ++ ledger.openKeys := by
    rw [ThreadState.keys, split, List.map_append, List.reverse_append, Ledger.openKeys,
      filterMap_marks marks]
  have tracked : List.Forall₂ (Tracks (reconstruction.records ++ more) state.inherited) numbers
      ledger.calls :=
    mirrors.tracks.imp fun number call tracked => (tracked.append more).inherit inherits
  have fresh : (reconstruction.records ++ more).length ∉ numbers := by
    intro member
    exact lt_irrefl _ (lt_length_of_mem tracked member)
  refine ⟨(reconstruction.records ++ more).length, ?_⟩
  constructor
  case bounded => exact mirrors.bounded_enter rule event
  case foreign =>
    intro other different call member
    rw [stackOf_enter_other rule reconstruction different] at member
    have inside := mirrors.bounded other call member
    rw [List.mem_append, List.mem_singleton, not_or, List.length_append]
    exact ⟨mirrors.foreign other different call member, by omega⟩
  case nodup =>
    refine List.nodup_append.mpr ⟨mirrors.nodup, List.nodup_singleton _, ?_⟩
    rintro number member _ last rfl
    exact fresh (List.mem_singleton.mp last ▸ member)
  case tracks =>
    rw [records_enter entered, inheritedOf_enter entered, stateKeys]
    exact tracks_append_singleton tracked event.key
      (CallRecord.opened event.time ledger.openKeys) kept
  case numbered =>
    intro key keyThread
    rw [Ledger.keys_enter, numbered_append sameLength]
    split
    next same =>
      rw [← same, numbersOf_enter entered, mirrors.numbered event.key rfl]
    next different =>
      rw [numbersOf_enter_other rule reconstruction (Ne.symm different),
        mirrors.numbered key keyThread, List.append_nil]
  case layered =>
    rw [stackOf_enter entered, inheritedOf_enter entered]
    exact layered.enter mirrors.tracks.length_eq (fun call member => (bounded call member).ne) event

/-- Settling the innermost call of the thread settles it in the ledger. -/
theorem tracks_settle_own
    {records : List (CallRecord Time)}
    {inherited : List EventKey}
    {calls : List (EventKey × CallRecord Time)}
    {keys : List EventKey}
    {ended : OpenCall}
    {own copies : List OpenCall}
    {place : Nat}
    {below : List Nat}
    (tracks : List.Forall₂ (Tracks records inherited) numbers calls)
    (nodup : numbers.Nodup)
    (found : numbers[place]? = some ended.record)
    (marks : List.Forall₂ (Marks numbers keys) own below)
    (copiesForeign : ∀ call ∈ copies, call.record ∉ numbers)
    (event : Event Time) :
    ∃ call, calls[place]? = some call ∧
      List.Forall₂ (Tracks (settle records event ended (own ++ copies)) inherited) numbers
        (Ledger.chargeBelow below (call.2.elapsed event.time)
          (Ledger.amend place (fun record => record.settle event.time (raised event)) calls)) := by
  obtain ⟨call, callFound, outer, _, recordFound⟩ := tracks_at tracks found
  have settled : List.Forall₂ (Tracks (records.modify ended.record fun record =>
      record.settle event.time (raised event)) inherited) numbers
      (Ledger.amend place (fun record => record.settle event.time (raised event)) calls) :=
    tracks_amend tracks nodup found fun record outer => record.settle_within outer _ _
  refine ⟨call, callFound, ?_⟩
  rw [settle_eq recordFound, CallRecord.elapsed_within]
  cases marks with
  | nil => exact tracks_chargeCaller_foreign settled copiesForeign _
  | cons head tail =>
      exact tracks_amend settled nodup head.1 fun record outer => record.charge_within outer _

/-- An exit of the thread ends the same call in the ledger; or a copy, or
nothing, if the ledger has no open call. -/
theorem Mirrors.tracks_and_layered_leave
    (mirrors : Mirrors event.thread reconstruction ledger numbers) :
    List.Forall₂ (Tracks (reconstruction.leave event).records
        ((reconstruction.leave event).inheritedOf event.thread)) numbers
        (ledger.leave event).calls ∧
      Layered numbers (ledger.leave event)
        ((reconstruction.leave event).inheritedOf event.thread)
        ((reconstruction.leave event).stackOf event.thread) := by
  have layered := mirrors.layered
  have ⟨own, copies, split, marks, copiesForeign, kept⟩ := layered
  rw [inheritedOf_leave]
  cases stack : reconstruction.stackOf event.thread with
  | nil =>
      rw [stack] at split
      obtain ⟨rfl, rfl⟩ := List.nil_eq_append_iff.mp split
      have noneOpen := List.forall₂_nil_left_iff.mp marks
      rw [Ledger.leave_of_opened_eq_nil noneOpen, leave_of_stackOf_eq_nil stack]
      exact ⟨mirrors.tracks, layered⟩
  | cons ended below =>
      obtain ⟨records, left⟩ := leave_of_stackOf_eq_cons stack
      rw [records, left]
      rw [stack] at split
      cases own with
      | nil =>
          have noneOpen := List.forall₂_nil_left_iff.mp marks
          rw [List.nil_append] at split
          rw [← split] at copiesForeign kept
          obtain ⟨_, belowForeign⟩ := List.forall_mem_cons.mp copiesForeign
          rw [Ledger.leave_of_opened_eq_nil noneOpen]
          refine ⟨tracks_settle_foreign mirrors.tracks copiesForeign event,
            [], below, rfl, marks, belowForeign, ?_⟩
          rw [List.map_cons, List.reverse_cons] at kept
          exact (List.prefix_append _ _).trans kept
      | cons call ownBelow =>
          obtain ⟨place, placesBelow, marked, marksBelow, someOpen⟩ :=
            List.forall₂_cons_left_iff.mp marks
          obtain ⟨rfl, rfl⟩ := List.cons_eq_cons.mp split
          obtain ⟨settled, found, tracks⟩ := tracks_settle_own mirrors.tracks mirrors.nodup marked.1
            marksBelow copiesForeign event
          have sameKeys := Ledger.keys_leave ledger event
          rw [Ledger.leave_of_opened_eq_cons someOpen found] at sameKeys ⊢
          refine ⟨tracks, ownBelow, copies, rfl, ?_, copiesForeign, kept⟩
          rw [sameKeys]
          exact marksBelow

theorem Mirrors.leave_own
    (mirrors : Mirrors event.thread reconstruction ledger numbers) :
    Mirrors event.thread (reconstruction.leave event) (ledger.leave event) numbers := by
  obtain ⟨tracks, layered⟩ := mirrors.tracks_and_layered_leave
  constructor
  case bounded => exact mirrors.bounded_leave event
  case foreign =>
    intro other different call member
    exact mirrors.foreign other different call (mem_stackOf_leave member)
  case nodup => exact mirrors.nodup
  case tracks => exact tracks
  case numbered =>
    intro key keyThread
    rw [numbersOf_leave, Ledger.keys_leave]
    exact mirrors.numbered key keyThread
  case layered => exact layered

/-! ## Whole logs -/

/-- Every event of the log keeps the ledger of the thread, which takes the
events of the thread into account. -/
theorem Mirrors.step
    (mirrors : Mirrors thread reconstruction ledger numbers)
    (rule : ParentRule Time)
    (event : Event Time) :
    ∃ more, Mirrors thread (reconstruction.step rule event)
      (if event.thread = thread then ledger.step event else ledger) (numbers ++ more) := by
  -- The history is read by the rule alone, and mirrors nothing.
  have unrecorded : ∀ {next : Reconstruction Time} {ledger : Ledger Time} {numbers : List Nat},
      Mirrors thread next ledger numbers →
      Mirrors thread { next with history := event :: reconstruction.history } ledger numbers :=
    fun kept => ⟨kept.bounded, kept.foreign, kept.nodup, kept.tracks, kept.numbered, kept.layered⟩
  unfold Reconstruction.step
  split
  next isEntry =>
    split
    next same =>
      subst same
      obtain ⟨number, entered⟩ := mirrors.enter_own rule
      rw [Ledger.step, if_pos isEntry]
      exact ⟨[number], unrecorded entered⟩
    next different =>
      refine ⟨[], unrecorded ?_⟩
      rw [List.append_nil]
      exact mirrors.enter_other rule (Ne.symm different)
  next isExit =>
    refine ⟨[], unrecorded ?_⟩
    rw [List.append_nil]
    split
    next same =>
      subst same
      rw [Ledger.step, if_neg isExit]
      exact mirrors.leave_own
    next different => exact mirrors.leave_other (Ne.symm different)

/-- The reconstruction of a log holds the ledger of the events of each thread. -/
theorem exists_mirrors
    (rule : ParentRule Time)
    (events : List (Event Time))
    (thread : String) :
    ∃ numbers, Mirrors thread (ofEvents rule events)
      (Ledger.ofEvents (events.filter fun event => event.thread = thread)) numbers := by
  induction events using List.reverseRecOn with
  | nil => exact ⟨[], mirrors_empty thread⟩
  | append_singleton front event inductionHypothesis =>
      obtain ⟨numbers, mirrors⟩ := inductionHypothesis
      obtain ⟨more, next⟩ := mirrors.step rule event
      refine ⟨numbers ++ more, ?_⟩
      rw [ofEvents_append_singleton, List.filter_append]
      by_cases same : event.thread = thread
      · rw [if_pos same] at next
        rw [List.filter_cons_of_pos (by simpa using same), List.filter_nil,
          Ledger.ofEvents_append_singleton]
        exact next
      · rw [if_neg same] at next
        rw [List.filter_cons_of_neg (by simpa using same), List.filter_nil, List.append_nil]
        exact next

omit [Arithmetic Time] in
/-- Of tracked calls, those of a key are those of the ledger. -/
theorem forall₂_records
    {records : List (CallRecord Time)}
    {inherited : List EventKey}
    {calls : List (EventKey × CallRecord Time)}
    (tracks : List.Forall₂ (Tracks records inherited) numbers calls)
    (key : EventKey) :
    List.Forall₂
      (fun record own => ∃ outer, outer <+: inherited ∧ record = own.within outer)
      ((((numbers.zip (calls.map Prod.fst)).filter fun entry => entry.2 = key).map
        Prod.fst).filterMap fun number => records[number]?)
      ((calls.filter fun call => call.1 = key).map Prod.snd) := by
  induction tracks with
  | nil => exact List.Forall₂.nil
  | @cons number call moreNumbers moreCalls head tail inductionHypothesis =>
      obtain ⟨outer, starts, found⟩ := head
      rw [List.map_cons, List.zip_cons_cons, List.filter_cons, List.filter_cons]
      by_cases same : call.1 = key
      · simp only [same, decide_true, if_true, List.map_cons, List.filterMap_cons_some found]
        exact List.Forall₂.cons ⟨outer, starts, rfl⟩ inductionHypothesis
      · simp only [same, decide_false, Bool.false_eq_true, if_false]
        exact inductionHypothesis

omit [Arithmetic Time] in
/-- The records of a key of the thread are those of the ledger, up to inherited keys
around their traces. -/
theorem Mirrors.recordsOf
    (mirrors : Mirrors thread reconstruction ledger numbers)
    {key : EventKey}
    (keyThread : key.thread = thread) :
    List.Forall₂
      (fun record own => ∃ outer, outer <+: reconstruction.inheritedOf thread ∧
        record = own.within outer)
      (reconstruction.recordsOf key) (ledger.recordsOf key) := by
  have tracked := forall₂_records mirrors.tracks key
  rw [← Ledger.keys, ← mirrors.numbered key keyThread] at tracked
  exact tracked

omit [Arithmetic Time] in
/-- The calls of a key of the thread are those of the ledger, up to inherited
keys around their traces. -/
theorem Mirrors.callsOf
    (mirrors : Mirrors thread reconstruction ledger numbers)
    {key : EventKey}
    (keyThread : key.thread = thread) :
    List.Forall₂
      (fun record own => ∃ outer, outer <+: reconstruction.inheritedOf thread ∧
        record = own.within outer)
      (reconstruction.callsOf key) (ledger.callsOf key) := by
  rw [callsOf_eq_filter, Ledger.callsOf_eq_filter]
  refine List.rel_filter ?_ (mirrors.recordsOf keyThread)
  rintro record own ⟨outer, _, rfl⟩
  exact Iff.rfl

end Reconstruction
end FlameProfile
