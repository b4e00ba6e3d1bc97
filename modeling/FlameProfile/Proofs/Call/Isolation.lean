import Mathlib
import FlameProfile.Proofs.Call.Mirror

/-!
# Threads do not disturb each other

The calls of a thread are what its own events say, whatever the other threads do
in between and whichever thread is taken for its parent. Only the traces tell the
difference: inherited keys may stand around them.
-/

namespace FlameProfile

/-- Two records say the same of times and exceptions. -/
structure CallRecord.SameMeasures
    {Time : Type}
    (first second : CallRecord Time) : Prop where
  start : first.start = second.start
  finish : first.finish = second.finish
  nested : first.nested = second.nested
  exclusive : first.exclusive = second.exclusive
  inclusive : first.inclusive = second.inclusive
  exceptions : first.exceptions = second.exceptions

theorem CallRecord.sameMeasures_within
    {Time : Type}
    (record : CallRecord Time)
    (outer : List EventKey) :
    (record.within outer).SameMeasures record :=
  ⟨rfl, rfl, rfl, rfl, rfl, rfl⟩

namespace Reconstruction

variable {Time : Type} [Arithmetic Time]

/-! ## Runs without parents -/

/-- Without a rule for parents, no event makes a thread inherit anything. -/
theorem inheritedOf_step_none
    {reconstruction : Reconstruction Time}
    (nothing : ∀ thread, reconstruction.inheritedOf thread = [])
    (event : Event Time)
    (thread : String) :
    (reconstruction.step ParentStrategy.none.rule event).inheritedOf thread = [] := by
  have unrecorded : ∀ next : Reconstruction Time,
      ({ next with history := event :: reconstruction.history } : Reconstruction Time).inheritedOf
        thread = next.inheritedOf thread := fun _ => rfl
  rw [step, unrecorded]
  split
  next =>
    by_cases same : thread = event.thread
    · subst same
      have inherited := nothing event.thread
      cases entered : reconstruction.threadAtEntry ParentStrategy.none.rule event.thread with
      | mk state records =>
          rw [inheritedOf_enter entered]
          unfold threadAtEntry at entered
          split at entered
          next known =>
            rw [inheritedOf, known] at inherited
            rw [← (Prod.mk.inj entered).1]
            exact inherited
          next =>
            rw [spawn_none] at entered
            rw [← (Prod.mk.inj entered).1]
    · rw [inheritedOf_enter_other _ _ same]
      exact nothing thread
  next =>
    rw [inheritedOf_leave]
    exact nothing thread

theorem inheritedOf_ofEvents_none
    (events : List (Event Time))
    (thread : String) :
    (ofEvents ParentStrategy.none.rule events).inheritedOf thread = [] := by
  induction events using List.reverseRecOn generalizing thread with
  | nil => rfl
  | append_singleton front event inductionHypothesis =>
      rw [ofEvents_append_singleton]
      exact inheritedOf_step_none inductionHypothesis event thread

/-- Without parents, the records of a key are those of the ledger of its thread. -/
theorem recordsOf_none
    (events : List (Event Time))
    (key : EventKey) :
    (ofEvents ParentStrategy.none.rule events).recordsOf key =
      (Ledger.ofEvents (events.filter fun event => event.thread = key.thread)).recordsOf key := by
  obtain ⟨numbers, mirrors⟩ := exists_mirrors ParentStrategy.none.rule events key.thread
  have records := mirrors.recordsOf rfl
  rw [inheritedOf_ofEvents_none] at records
  rw [← List.forall₂_eq_eq_eq]
  apply records.imp
  rintro record own ⟨outer, starts, rfl⟩
  rw [List.prefix_nil.mp starts, CallRecord.within_nil]

/-- Without parents, the calls of a key are those of the ledger of its thread. -/
theorem callsOf_none
    (events : List (Event Time))
    (key : EventKey) :
    (ofEvents ParentStrategy.none.rule events).callsOf key =
      (Ledger.ofEvents (events.filter fun event => event.thread = key.thread)).callsOf key := by
  rw [callsOf_eq_filter, recordsOf_none, ← Ledger.callsOf_eq_filter]

/-! ## Any run against the run of one thread -/

/-- Under any rule for parents, the calls of a key have the measures that they
have in a run without parents over the events of their thread alone. Their traces
end with the traces there. -/
theorem callsOf_isolated
    (rule : ParentRule Time)
    (events : List (Event Time))
    (key : EventKey) :
    List.Forall₂ (fun full solo => full.SameMeasures solo ∧ solo.trace <:+ full.trace)
      ((ofEvents rule events).callsOf key)
      ((ofEvents ParentStrategy.none.rule
        (events.filter fun event => event.thread = key.thread)).callsOf key) := by
  obtain ⟨numbers, mirrors⟩ := exists_mirrors rule events key.thread
  have filtered : (events.filter fun event => event.thread = key.thread).filter
      (fun event => event.thread = key.thread) =
        events.filter fun event => event.thread = key.thread := by
    rw [List.filter_filter]
    exact List.filter_congr fun event _ => Bool.and_self _
  rw [callsOf_none, filtered]
  apply (mirrors.callsOf rfl).imp
  rintro full own ⟨outer, _, rfl⟩
  exact ⟨own.sameMeasures_within outer, List.suffix_append outer own.trace⟩

end Reconstruction
end FlameProfile
