import Mathlib
import FlameProfile.Proofs.Call.Grounding
import FlameProfile.Proofs.Call.Parents

/-!
# Later events leave settled results alone

A reconstruction is built event by event, and what it says of the past is final. A
completed call is on no stack, and an event writes only to records on the stack of its own
thread, so a completed call stays as it is and keeps its place among the calls of its key.
A thread keeps the parent and the keys that it was given at its first entry, which are
those that were open on its parent at that moment.
-/

namespace FlameProfile
namespace Reconstruction

variable {Time : Type}

/-! ## Owned numbers of a key and of a thread -/

section Owned

variable {reconstruction : Reconstruction Time} {number : Nat}

theorem mem_callNumbers_of_mem_numbersOf
    {key : EventKey}
    (listed : number ∈ reconstruction.numbersOf key) :
    number ∈ reconstruction.callNumbers := by
  obtain ⟨numbers, found, member⟩ := mem_numbersOf_iff.mp listed
  exact List.mem_flatMap.mpr ⟨_, FirstSeen.mem_of_find?_eq_some found, member⟩

theorem mem_stackNumbers_of_mem_stackOf
    {thread : String}
    {call : OpenCall}
    (onStack : call ∈ reconstruction.stackOf thread) :
    call.record ∈ reconstruction.stackNumbers := by
  obtain ⟨state, known, member⟩ := mem_stackOf_iff.mp onStack
  exact List.mem_flatMap.mpr ⟨_, FirstSeen.mem_of_find?_eq_some known, List.mem_map_of_mem member⟩

/-- The number of a completed call is on no stack. -/
theorem Owned.ne_of_isComplete
    (owned : reconstruction.Owned)
    {key : EventKey}
    (listed : number ∈ reconstruction.numbersOf key)
    {record : CallRecord Time}
    (found : reconstruction.records[number]? = some record)
    (complete : record.isComplete = true)
    {thread : String}
    {call : OpenCall}
    (onStack : call ∈ reconstruction.stackOf thread) :
    call.record ≠ number := by
  rintro rfl
  have isOpen := (owned.open_iff _ (mem_callNumbers_of_mem_numbersOf listed)).mpr
    (mem_stackNumbers_of_mem_stackOf onStack)
  rw [completeAt, found, Option.map_some, complete] at isOpen
  exact absurd (Option.some.inj isOpen) (by decide)

end Owned

/-! ## What stays -/

/-- What a thread was given at its first entry: its parent and its inherited keys. -/
def birthOf
    (reconstruction : Reconstruction Time)
    (thread : String) : Option (Option String × List EventKey) :=
  (reconstruction.thread? thread).map fun state => (state.parent, state.inherited)

/-- A later reconstruction lists the same keys and numbers first, has the same records for
the completed calls, and says the same of how the threads began. -/
structure KeepsSettled (before after : Reconstruction Time) : Prop where
  keys : before.keys <+: after.keys
  numbers : ∀ key, before.numbersOf key <+: after.numbersOf key
  records : ∀ key, ∀ number ∈ before.numbersOf key, ∀ record,
    before.records[number]? = some record → record.isComplete = true →
      after.records[number]? = some record
  births : ∀ thread birth, before.birthOf thread = some birth →
    after.birthOf thread = some birth

section KeepsSettled

variable {before middle after : Reconstruction Time}

theorem keepsSettled_self (reconstruction : Reconstruction Time) :
    KeepsSettled reconstruction reconstruction where
  keys := List.prefix_rfl
  numbers _ := List.prefix_rfl
  records _ _ _ _ found _ := found
  births _ _ born := born

theorem KeepsSettled.trans
    (first : KeepsSettled before middle)
    (second : KeepsSettled middle after) :
    KeepsSettled before after where
  keys := first.keys.trans second.keys
  numbers key := (first.numbers key).trans (second.numbers key)
  records key number listed record found complete :=
    second.records key number ((first.numbers key).subset listed) record
      (first.records key number listed record found complete) complete
  births thread birth born := second.births thread birth (first.births thread birth born)

/-- What is found in one list of records and in another one as well is found in the same
order. -/
theorem filterMap_sublist_filterMap
    {Item Value : Type}
    {first second : Item -> Option Value}
    {items : List Item}
    (agree : ∀ item ∈ items, ∀ value, first item = some value → second item = some value) :
    (items.filterMap first).Sublist (items.filterMap second) := by
  induction items with
  | nil => exact List.Sublist.refl _
  | cons item rest inductionHypothesis =>
      obtain ⟨here, behind⟩ := List.forall_mem_cons.mp agree
      have restSublist := inductionHypothesis behind
      cases found : first item with
      | none =>
          rw [List.filterMap_cons_none found]
          refine restSublist.trans ?_
          cases other : second item with
          | none => rw [List.filterMap_cons_none other]
          | some value =>
              rw [List.filterMap_cons_some other]
              exact List.sublist_cons_self _ _
      | some value =>
          rw [List.filterMap_cons_some found, List.filterMap_cons_some (here value found)]
          exact restSublist.cons_cons value

/-- The completed calls of a key stay, in the same order. -/
theorem KeepsSettled.callsOf
    (keeps : KeepsSettled before after)
    (key : EventKey) :
    (before.callsOf key).Sublist (after.callsOf key) := by
  have calls : ∀ reconstruction : Reconstruction Time, reconstruction.callsOf key =
      (reconstruction.numbersOf key).filterMap fun number =>
        reconstruction.records[number]?.filter CallRecord.isComplete := by
    intro reconstruction
    rw [callsOf_eq_filter, recordsOf, List.filter_filterMap]
  obtain ⟨more, numbers⟩ := keeps.numbers key
  rw [calls, calls, ← numbers, List.filterMap_append]
  refine List.Sublist.trans (filterMap_sublist_filterMap ?_) (List.sublist_append_left _ _)
  intro number listed record found
  obtain ⟨isRecord, complete⟩ := Option.filter_eq_some_iff.mp found
  exact Option.filter_eq_some_iff.mpr
    ⟨keeps.records key number listed record isRecord complete, complete⟩

end KeepsSettled

/-! ## New threads -/

/-- A new thread inherits the keys that are open on its parent. -/
theorem inherited_spawn
    {reconstruction : Reconstruction Time}
    (owned : reconstruction.Owned)
    (rule : ParentRule Time)
    (thread : String) :
    (reconstruction.spawn rule thread).1.inherited =
      (((rule thread reconstruction.history).bind reconstruction.thread?).map
        ThreadState.keys).getD [] := by
  rw [spawn]
  cases rule thread reconstruction.history with
  | none => rfl
  | some parent =>
      have bounded : ∀ call ∈ (reconstruction.stackOf parent).reverse,
          call.record < reconstruction.records.length := fun call member =>
        owned.stackedBound _ (mem_stackNumbers_of_mem_stackOf (List.mem_reverse.mp member))
      have copies := keys_copyCalls bounded []
      rw [List.map_nil, List.append_nil, List.map_reverse, List.reverse_reverse] at copies
      have inherited := congrArg List.reverse copies
      rw [stackOf] at inherited
      refine inherited.trans ?_
      rw [Option.bind_some]
      cases reconstruction.thread? parent with
      | none => rfl
      | some state => rfl

variable [Arithmetic Time]

/-! ## Entries -/

/-- An entry only adds: a number behind those of its key, records behind those there are,
and a state for its thread if there is none. -/
theorem keepsSettled_enter
    (rule : ParentRule Time)
    (reconstruction : Reconstruction Time)
    (event : Event Time) :
    KeepsSettled reconstruction (reconstruction.enter rule event) := by
  obtain ⟨state, more, entered, origin⟩ := exists_entersWith rule reconstruction event.thread
  constructor
  case keys =>
    rw [Reconstruction.keys, Reconstruction.keys, enter, FirstSeen.keys_record]
    split
    next => exact List.prefix_rfl
    next => exact List.prefix_append _ _
  case numbers =>
    intro key
    by_cases same : key = event.key
    · rw [same, numbersOf_enter entered]
      exact List.prefix_append _ _
    · rw [numbersOf_enter_other rule reconstruction same]
  case records =>
    intro _ number _ record found _
    have inside := (List.getElem?_eq_some_iff.mp found).1
    rw [records_enter entered, List.append_assoc, List.getElem?_append_left inside, found]
  case births =>
    intro thread birth born
    by_cases same : thread = event.thread
    · rw [same, birthOf] at born
      -- a thread that was born enters with the state that it has
      rcases origin with ⟨known, _⟩ | ⟨unknown, _⟩
      · rw [known] at born
        rw [same, birthOf, thread?, threads_enter entered, FirstSeen.find?_record_const]
        exact born
      · rw [unknown] at born
        exact absurd born (Option.some_ne_none birth).symm
    · rw [birthOf, thread?_enter_other rule reconstruction same]
      exact born

/-! ## Exits -/

section Leave

variable {reconstruction : Reconstruction Time} {event : Event Time}

/-- Only the record of the ended call and that of the call below it are written. -/
theorem getElem?_settle_of_foreign
    {ended : OpenCall}
    {below : List OpenCall}
    {number : Nat}
    (foreign : ∀ call ∈ ended :: below, call.record ≠ number)
    (records : List (CallRecord Time)) :
    (settle records event ended below)[number]? = records[number]? := by
  obtain ⟨notEnded, notBelow⟩ := List.forall_mem_cons.mp foreign
  cases found : records[ended.record]? with
  | none => rw [settle, found]
  | some record =>
      rw [settle_eq found]
      cases below with
      | nil => exact List.getElem?_modify_ne _ _ notEnded
      | cons caller rest =>
          rw [chargeCaller, List.getElem?_modify_ne _ _ (notBelow caller List.mem_cons_self),
            List.getElem?_modify_ne _ _ notEnded]

theorem birthOf_leave
    (reconstruction : Reconstruction Time)
    (event : Event Time)
    (thread : String) :
    (reconstruction.leave event).birthOf thread = reconstruction.birthOf thread := by
  unfold leave
  split
  next parent inherited ended below known =>
    by_cases same : thread = event.thread
    · rw [same, birthOf, thread?, FirstSeen.find?_record_const, birthOf, known]
      rfl
    · rw [birthOf, thread?, FirstSeen.find?_record_other same, birthOf, thread?]
  next => rfl

/-- An exit writes to records on the stack of its thread, and none of them is that of a
completed call. -/
theorem keepsSettled_leave
    (owned : reconstruction.Owned)
    (event : Event Time) :
    KeepsSettled reconstruction (reconstruction.leave event) := by
  constructor
  case keys => rw [Reconstruction.keys, Reconstruction.keys, calls_leave]
  case numbers =>
    intro key
    rw [numbersOf_leave]
  case records =>
    intro key number listed record found complete
    cases stack : reconstruction.stackOf event.thread with
    | nil =>
        rw [leave_of_stackOf_eq_nil stack]
        exact found
    | cons ended below =>
        have foreign : ∀ call ∈ ended :: below, call.record ≠ number := by
          intro call onStack
          rw [← stack] at onStack
          exact owned.ne_of_isComplete listed found complete onStack
        rw [(leave_of_stackOf_eq_cons stack).1, getElem?_settle_of_foreign foreign, found]
  case births =>
    intro thread birth born
    rw [birthOf_leave, born]

end Leave

/-! ## Whole logs -/

theorem keepsSettled_step
    {reconstruction : Reconstruction Time}
    (owned : reconstruction.Owned)
    (rule : ParentRule Time)
    (event : Event Time) :
    KeepsSettled reconstruction (reconstruction.step rule event) := by
  have unrecorded : ∀ {next : Reconstruction Time}, KeepsSettled reconstruction next →
      KeepsSettled reconstruction { next with history := event :: reconstruction.history } :=
    fun keeps => ⟨keeps.keys, keeps.numbers, keeps.records, keeps.births⟩
  unfold Reconstruction.step
  split
  next => exact unrecorded (keepsSettled_enter rule reconstruction event)
  next => exact unrecorded (keepsSettled_leave owned event)

/-- Whatever events follow, what is settled stays. -/
theorem keepsSettled_ofEvents
    (rule : ParentRule Time)
    (front later : List (Event Time)) :
    KeepsSettled (ofEvents rule front) (ofEvents rule (front ++ later)) := by
  induction later using List.reverseRecOn with
  | nil =>
      rw [List.append_nil]
      exact keepsSettled_self _
  | append_singleton middle event inductionHypothesis =>
      rw [← List.append_assoc, ofEvents_append_singleton]
      exact inductionHypothesis.trans (keepsSettled_step (owned_ofEvents rule _) rule event)

/-! ## How threads begin -/

/-- A thread that has entered no call is unknown. -/
theorem thread?_eq_none_of_not_hasEntered
    (rule : ParentRule Time)
    {events : List (Event Time)}
    {thread : String}
    (first : ¬ HasEntered events thread) :
    (ofEvents rule events).thread? thread = none := by
  have links := linksAs_ofEvents rule events thread
  cases known : (ofEvents rule events).thread? thread with
  | none => rfl
  | some state =>
      rw [linkOf, known, Option.map_some] at links
      exact absurd links.hasEntered first

/-- At its first entry a thread gets the parent that the rule names, and inherits what is
open on it then. -/
theorem birthOf_firstEntry
    (rule : ParentRule Time)
    {front : List (Event Time)}
    {event : Event Time}
    (isEntry : event.kind.isEntry = true)
    (first : ¬ HasEntered front event.thread) :
    (ofEvents rule (front ++ [event])).birthOf event.thread =
      some (rule event.thread front.reverse,
        (((rule event.thread front.reverse).bind (ofEvents rule front).thread?).map
          ThreadState.keys).getD []) := by
  have unknown := thread?_eq_none_of_not_hasEntered rule first
  have entered : (ofEvents rule front).threadAtEntry rule event.thread =
      (ofEvents rule front).spawn rule event.thread := by rw [threadAtEntry, unknown]
  have inherits := inherited_spawn (owned_ofEvents rule front) rule event.thread
  rw [history_ofEvents] at inherits
  rw [ofEvents_append_singleton, step, if_pos isEntry, ← inherits, birthOf, thread?]
  rw [threads_enter entered, FirstSeen.find?_record_const, Option.map_some, ← history_ofEvents rule]
  rfl

/-- A reconstruction is incremental. Under any rule for parents, whatever events follow a log:
the completed calls of each key stay as they are and in their order, possibly with others
between them; further keys come behind those there are; each thread keeps its parent and what
it has inherited. The thread of a first entry has from then on the parent that the rule names
after the events before, and has inherited the keys open on that parent after these events, or
none if the parent is not known then. -/
theorem ofEvents_append_keepsSettled
    (rule : ParentRule Time)
    (front later : List (Event Time)) :
    let before := ofEvents rule front
    let after := ofEvents rule (front ++ later)
    (∀ key, (before.callsOf key).Sublist (after.callsOf key)) ∧
    before.keys <+: after.keys ∧
    (∀ thread state, before.thread? thread = some state →
      ∃ kept, after.thread? thread = some kept ∧
        kept.parent = state.parent ∧ kept.inherited = state.inherited) ∧
    (∀ event rest, later = event :: rest → event.kind.isEntry = true →
      ¬ HasEntered front event.thread →
        ∃ state, after.thread? event.thread = some state ∧
          state.parent = rule event.thread front.reverse ∧
          state.inherited =
            ((state.parent.bind before.thread?).map ThreadState.keys).getD []) := by
  intro before after
  have keeps : KeepsSettled before after := keepsSettled_ofEvents rule front later
  refine ⟨keeps.callsOf, keeps.keys, ?_, ?_⟩
  · intro thread state known
    have born : before.birthOf thread = some (state.parent, state.inherited) := by
      rw [birthOf, known, Option.map_some]
    obtain ⟨kept, isKept, same⟩ := Option.map_eq_some_iff.mp (keeps.births thread _ born)
    exact ⟨kept, isKept, congrArg Prod.fst same, congrArg Prod.snd same⟩
  · rintro event rest rfl isEntry first
    have onwards : KeepsSettled (ofEvents rule (front ++ [event])) after := by
      have later := keepsSettled_ofEvents rule (front ++ [event]) rest
      rwa [List.append_assoc, List.singleton_append] at later
    have born := onwards.births event.thread _ (birthOf_firstEntry rule isEntry first)
    obtain ⟨state, known, same⟩ := Option.map_eq_some_iff.mp born
    have parent : state.parent = rule event.thread front.reverse := congrArg Prod.fst same
    refine ⟨state, known, parent, ?_⟩
    rw [parent]
    exact congrArg Prod.snd same

/-- Two calls of one thread, of which one is over and the other is still open. -/
def openedLog : List (Event Rat) :=
  [ ⟨.started, ⟨⟨"a.py", "main", 1⟩, "1"⟩, 0, none⟩,
    ⟨.started, ⟨⟨"a.py", "load", 4⟩, "1"⟩, 1, none⟩,
    ⟨.returned, ⟨⟨"a.py", "load", 4⟩, "1"⟩, 3, none⟩ ]

/-- A second thread enters a call, and both threads leave what they are in. -/
def continuedLog : List (Event Rat) :=
  [ ⟨.started, ⟨⟨"a.py", "load", 4⟩, "2"⟩, 4, none⟩,
    ⟨.returned, ⟨⟨"a.py", "main", 1⟩, "1"⟩, 5, none⟩,
    ⟨.returned, ⟨⟨"a.py", "load", 4⟩, "2"⟩, 6, none⟩,
    ⟨.returned, ⟨⟨"a.py", "main", 1⟩, "2"⟩, 7, none⟩ ]

theorem ofEvents_append_keepsSettled_openedLog :
    let before := ofEvents ParentStrategy.nearest.rule openedLog
    let after := ofEvents ParentStrategy.nearest.rule (openedLog ++ continuedLog)
    (before.callsOf ⟨⟨"a.py", "load", 4⟩, "1"⟩).Sublist
      (after.callsOf ⟨⟨"a.py", "load", 4⟩, "1"⟩) ∧
    (before.callsOf ⟨⟨"a.py", "load", 4⟩, "1"⟩).length = 1 ∧
    (∃ kept, after.thread? "1" = some kept ∧ kept.parent = none ∧ kept.inherited = []) ∧
    ∃ state, after.thread? "2" = some state ∧ state.parent = some "1" ∧
      state.inherited = [⟨⟨"a.py", "main", 1⟩, "1"⟩] ∧ state.stack = [] := by
  obtain ⟨calls, -, threads, first⟩ :=
    ofEvents_append_keepsSettled ParentStrategy.nearest.rule openedLog continuedLog
  refine ⟨calls _, by decide +kernel, ?_, ?_⟩
  · obtain ⟨kept, known, parent, inherited⟩ := threads "1"
      ⟨none, [], [⟨⟨⟨"a.py", "main", 1⟩, "1"⟩, 0⟩]⟩ (by decide +kernel)
    exact ⟨kept, known, parent, inherited⟩
  · have unknown : ¬ HasEntered openedLog "2" := by simp [HasEntered, openedLog, Event.thread]
    obtain ⟨state, known, parent, inherited⟩ := first _ _ rfl rfl unknown
    have named : state.parent = some "1" := parent.trans (by decide +kernel)
    rw [named] at inherited
    have isState : state = ⟨some "1", [⟨⟨"a.py", "main", 1⟩, "1"⟩], []⟩ :=
      Option.some.inj (known.symm.trans (by decide +kernel))
    exact ⟨state, known, named, inherited.trans (by decide +kernel), by rw [isState]⟩

end Reconstruction
end FlameProfile
