import Mathlib
import FlameProfile.Proofs.Call.Settled

/-!
# Frames of a stack

A stack has the calls of its own thread on top of the copies that the thread has inherited.
The number of an own call is listed under its key, which is a key of the thread; that of a
copy is listed nowhere. Every frame, own or inherited, was entered on the frames below it:
these are the trace of its record. `Framed` says so of all stacks, `Framed.enter` and
`Framed.leave` that events keep it, and `framed_ofEvents` that it holds after any log.
-/

namespace FlameProfile
namespace Reconstruction

variable {Time : Type}

/-! ## Traces of frames -/

/-- The record of every call on a stack has the keys below it for its trace. -/
def Traced
    (records : List (CallRecord Time))
    (stack : List OpenCall) : Prop :=
  ∀ call below, call :: below <:+ stack →
    (records.map CallRecord.trace)[call.record]? = some (below.map OpenCall.key).reverse

section Traced

variable {records : List (CallRecord Time)} {stack below : List OpenCall} {call : OpenCall}

theorem traced_nil : Traced records [] := by
  intro call below inside
  exact absurd (List.suffix_nil.mp inside) (List.cons_ne_nil call below)

theorem traced_cons_iff :
    Traced records (call :: below) ↔
      (records.map CallRecord.trace)[call.record]? = some (below.map OpenCall.key).reverse ∧
        Traced records below := by
  constructor
  · intro traced
    exact ⟨traced call below List.suffix_rfl, fun other rest inside =>
      traced other rest (inside.trans (List.suffix_cons call below))⟩
  · rintro ⟨here, traced⟩ other rest inside
    rcases List.suffix_cons_iff.mp inside with same | deeper
    · obtain ⟨rfl, rfl⟩ := List.cons.inj same
      exact here
    · exact traced other rest deeper

/-- More records change no trace. -/
theorem Traced.append
    (traced : Traced records stack)
    (more : List (CallRecord Time)) :
    Traced (records ++ more) stack := by
  intro call below inside
  have found := traced call below inside
  rw [List.map_append, List.getElem?_append_left (List.getElem?_eq_some_iff.mp found).1, found]

/-- Copies that are put on top of what is traced are traced, if the calls that are copied
were entered on what is below them together with the ones copied before. -/
theorem traced_copyCalls
    {copied : List OpenCall}
    (traced : Traced records copied)
    (entered : ∀ front call back, stack = front ++ call :: back →
      (records.map CallRecord.trace)[call.record]? =
        some ((copied.map OpenCall.key).reverse ++ front.map OpenCall.key)) :
    Traced (copyCalls records copied stack).2 (copyCalls records copied stack).1 := by
  induction stack generalizing records copied with
  | nil => exact traced
  | cons call inner inductionHypothesis =>
      have here := entered [] call inner rfl
      rw [List.getElem?_map, Option.map_eq_some_iff] at here
      obtain ⟨record, found, trace⟩ := here
      rw [List.map_nil, List.append_nil] at trace
      rw [copyCalls, found]
      apply inductionHypothesis
      · refine traced_cons_iff.mpr ⟨?_, traced.append [record]⟩
        rw [← trace, List.map_append, ← List.length_map CallRecord.trace]
        exact List.getElem?_concat_length
      · intro front other back split
        have before := entered (call :: front) other back (congrArg (List.cons call) split)
        rw [List.map_append, List.getElem?_append_left (List.getElem?_eq_some_iff.mp before).1,
          before]
        simp

end Traced

/-! ## Own calls and copies -/

/-- Some calls of a thread, each listed under its key. -/
def AreOwn
    (reconstruction : Reconstruction Time)
    (thread : String)
    (calls : List OpenCall) : Prop :=
  ∀ call ∈ calls, call.record ∈ reconstruction.numbersOf call.key ∧ call.key.thread = thread

/-- Some copies, none of them listed. -/
def AreCopies
    (reconstruction : Reconstruction Time)
    (calls : List OpenCall) : Prop :=
  ∀ call ∈ calls, call.record ∉ reconstruction.callNumbers

/-- Every stack has own calls on top of copies, and every frame was entered on the frames
below it. -/
structure Framed (reconstruction : Reconstruction Time) : Prop where
  divided : ∀ thread, ∃ own inherited, reconstruction.stackOf thread = own ++ inherited ∧
    reconstruction.AreOwn thread own ∧ reconstruction.AreCopies inherited
  traced : ∀ thread, Traced reconstruction.records (reconstruction.stackOf thread)

theorem framed_empty : (empty : Reconstruction Time).Framed where
  divided _ := ⟨[], [], rfl, fun _ member => absurd member List.not_mem_nil,
    fun _ member => absurd member List.not_mem_nil⟩
  traced _ := traced_nil

/-- What a new thread copies is the stack of its parent, if it has one. -/
theorem getD_stack_bind
    (reconstruction : Reconstruction Time)
    (parent : Option String) :
    ((parent.bind reconstruction.thread?).map ThreadState.stack).getD [] =
      parent.elim [] reconstruction.stackOf := by
  cases parent <;> rfl

section AtEntry

variable {reconstruction : Reconstruction Time} {rule : ParentRule Time} {thread : String}
  {state : ThreadState} {more : List (CallRecord Time)}

/-- The stack on which a thread enters a call is in frames, also if it was just copied. -/
theorem Framed.traced_atEntry
    (framed : reconstruction.Framed)
    (entered : reconstruction.threadAtEntry rule thread = (state, reconstruction.records ++ more)) :
    Traced (reconstruction.records ++ more) state.stack := by
  have traced := framed.traced
  unfold threadAtEntry at entered
  split at entered
  next known =>
    have own := traced thread
    rw [stackOf, known] at own
    rw [← (Prod.mk.inj entered).1]
    exact own.append more
  next =>
    rw [spawn, getD_stack_bind] at entered
    rw [← (Prod.mk.inj entered).1, ← (Prod.mk.inj entered).2]
    apply traced_copyCalls traced_nil
    intro front call back split
    cases isParent : rule thread reconstruction.history with
    | none =>
        rw [isParent] at split
        exact absurd split (by simp)
    | some parent =>
        rw [isParent, Option.elim_some] at split
        -- the stack of the parent is copied from its outermost call on
        have turned := congrArg List.reverse split
        rw [List.reverse_reverse, List.reverse_append, List.reverse_cons, List.append_assoc,
          List.singleton_append] at turned
        rw [traced parent call front.reverse ⟨back.reverse, turned.symm⟩]
        simp

theorem Framed.divided_atEntry
    (framed : reconstruction.Framed)
    (owned : reconstruction.Owned)
    (origin : reconstruction.EntersWith thread state more) :
    ∃ own inherited, state.stack = own ++ inherited ∧
      reconstruction.AreOwn thread own ∧ reconstruction.AreCopies inherited := by
  rcases origin with ⟨known, -⟩ | ⟨-, -, numbered⟩
  · have divided := framed.divided thread
    rwa [stackOf, known] at divided
  · refine ⟨[], state.stack, rfl, fun _ member => absurd member List.not_mem_nil, ?_⟩
    intro call onStack listed
    exact absurd (owned.listedBound _ listed) (Nat.not_lt.mpr (numbered call onStack).1)

end AtEntry

variable [Arithmetic Time] {reconstruction : Reconstruction Time} {event : Event Time}

/-! ## Events -/

/-- An entry lists the calls that were listed, and the new one. -/
theorem AreOwn.enter
    {calls : List OpenCall}
    {thread : String}
    (own : reconstruction.AreOwn thread calls)
    (rule : ParentRule Time)
    (event : Event Time) :
    (reconstruction.enter rule event).AreOwn thread calls := by
  intro call member
  obtain ⟨listed, ofThread⟩ := own call member
  exact ⟨((keepsSettled_enter rule reconstruction event).numbers call.key).subset listed, ofThread⟩

theorem AreCopies.enter
    {calls : List OpenCall}
    {rule : ParentRule Time}
    {state : ThreadState}
    {records : List (CallRecord Time)}
    (copies : reconstruction.AreCopies calls)
    (bounded : ∀ call ∈ calls, call.record < records.length)
    (entered : reconstruction.threadAtEntry rule event.thread = (state, records)) :
    (reconstruction.enter rule event).AreCopies calls := by
  intro call member listed
  rcases List.mem_append.mp ((callNumbers_enter entered).mem_iff.mp listed) with old | isNew
  · exact copies call member old
  · exact absurd (List.mem_singleton.mp isNew) (bounded call member).ne

theorem Framed.enter
    (framed : reconstruction.Framed)
    (owned : reconstruction.Owned)
    (rule : ParentRule Time)
    (event : Event Time) :
    (reconstruction.enter rule event).Framed := by
  obtain ⟨state, more, entered, origin⟩ := exists_entersWith rule reconstruction event.thread
  have bounded : ∀ thread, ∀ call ∈ reconstruction.stackOf thread,
      call.record < (reconstruction.records ++ more).length := by
    intro thread call onStack
    rw [List.length_append]
    exact (owned.stackedBound _ (mem_stackNumbers_of_mem_stackOf onStack)).trans_le
      (Nat.le_add_right _ _)
  have boundedAtEntry : ∀ call ∈ state.stack,
      call.record < (reconstruction.records ++ more).length := by
    rcases origin with ⟨known, -⟩ | ⟨-, -, numbered⟩
    · have onStack := bounded event.thread
      rwa [stackOf, known] at onStack
    · exact fun call onStack => (numbered call onStack).2
  constructor
  case divided =>
    intro thread
    by_cases same : thread = event.thread
    · obtain ⟨own, inherited, split, isOwn, areCopies⟩ := framed.divided_atEntry owned origin
      rw [split] at boundedAtEntry
      rw [same, stackOf_enter entered, split]
      refine ⟨⟨event.key, _⟩ :: own, inherited, rfl, ?_, areCopies.enter ?_ entered⟩
      · refine List.forall_mem_cons.mpr ⟨⟨?_, rfl⟩, isOwn.enter rule event⟩
        rw [numbersOf_enter entered]
        exact List.mem_append_right _ (List.mem_singleton_self _)
      · exact fun call member => boundedAtEntry call (List.mem_append_right own member)
    · obtain ⟨own, inherited, split, isOwn, areCopies⟩ := framed.divided thread
      have onStack := bounded thread
      rw [split] at onStack
      rw [stackOf_enter_other rule reconstruction same]
      refine ⟨own, inherited, split, isOwn.enter rule event, areCopies.enter ?_ entered⟩
      exact fun call member => onStack call (List.mem_append_right own member)
  case traced =>
    intro thread
    rw [records_enter entered]
    by_cases same : thread = event.thread
    · rw [same, stackOf_enter entered]
      refine traced_cons_iff.mpr ⟨?_, (framed.traced_atEntry entered).append _⟩
      rw [List.map_append, ← List.length_map CallRecord.trace]
      exact List.getElem?_concat_length
    · rw [stackOf_enter_other rule reconstruction same, List.append_assoc]
      exact (framed.traced thread).append _

/-- An exit takes one call off a stack, or none. -/
theorem exists_stackOf_eq_append_leave
    (reconstruction : Reconstruction Time)
    (event : Event Time)
    (thread : String) :
    ∃ gone, reconstruction.stackOf thread =
      gone ++ (reconstruction.leave event).stackOf thread := by
  by_cases same : thread = event.thread
  · rw [same]
    cases stack : reconstruction.stackOf event.thread with
    | nil =>
        rw [leave_of_stackOf_eq_nil stack]
        exact ⟨[], stack.symm⟩
    | cons ended below =>
        rw [(leave_of_stackOf_eq_cons stack).2]
        exact ⟨[ended], rfl⟩
  · exact ⟨[], (stackOf_leave_other same).symm⟩

theorem Framed.leave
    (framed : reconstruction.Framed)
    (event : Event Time) :
    (reconstruction.leave event).Framed := by
  constructor
  case divided =>
    intro thread
    obtain ⟨own, inherited, split, isOwn, areCopies⟩ := framed.divided thread
    obtain ⟨gone, left⟩ := reconstruction.exists_stackOf_eq_append_leave event thread
    rw [split] at left
    have stillOwn : (reconstruction.leave event).AreOwn thread own := by
      intro call member
      rw [numbersOf_leave]
      exact isOwn call member
    have stillCopies : (reconstruction.leave event).AreCopies inherited := by
      intro call member
      rw [callNumbers_leave]
      exact areCopies call member
    rcases List.append_eq_append_iff.mp left with ⟨more, rfl, rfl⟩ | ⟨rest, rfl, remains⟩
    · refine ⟨[], _, rfl, fun _ member => absurd member List.not_mem_nil, ?_⟩
      exact fun call member => stillCopies call (List.mem_append_right more member)
    · refine ⟨rest, inherited, remains, ?_, stillCopies⟩
      exact fun call member => stillOwn call (List.mem_append_right gone member)
  case traced =>
    intro thread call below inside
    obtain ⟨gone, left⟩ := reconstruction.exists_stackOf_eq_append_leave event thread
    rw [map_trace_leave]
    exact framed.traced thread call below (inside.trans ⟨gone, left.symm⟩)

/-! ## Whole logs -/

theorem framed_ofEvents
    (rule : ParentRule Time)
    (events : List (Event Time)) :
    (ofEvents rule events).Framed := by
  apply ofEvents_induction fun _ reconstruction => reconstruction.Framed
  case initial => exact framed_empty
  case unrecorded =>
    intro _ reconstruction history framed
    exact ⟨framed.divided, framed.traced⟩
  case enters =>
    intro front event _ framed
    exact framed.enter (owned_ofEvents rule front) rule event
  case leaves => exact fun _ event _ framed => framed.leave event

end Reconstruction
end FlameProfile
