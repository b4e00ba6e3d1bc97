import Mathlib
import FlameProfile.Proofs.Call.Interleaving
import FlameProfile.Proofs.Call.Ownership

/-!
# Every event is accounted for

An entry opens a call, which ends up among the completed or among the open calls. An exit
takes an open call from a stack or is counted as unmatched. So what is on the stacks in
the end is what was inherited and what was entered, less what was left; and without
parents, where nothing but entered calls is on the stacks, the exits that found a call are
the completed calls.
-/

namespace FlameProfile
namespace Reconstruction

variable {Time : Type}

/-- Number of the entries of a log. -/
def entryCount (events : List (Event Time)) : Nat :=
  events.countP fun event => event.kind.isEntry

/-- Number of the exits of a log. -/
def exitCount (events : List (Event Time)) : Nat :=
  events.countP fun event => !event.kind.isEntry

/-- Number of the open calls of all threads, copies included. -/
def totalDepth (reconstruction : Reconstruction Time) : Nat :=
  (reconstruction.threads.map fun entry => entry.2.depth).sum

/-- Number of the open calls that all threads together have inherited. -/
def totalInherited (reconstruction : Reconstruction Time) : Nat :=
  (reconstruction.threads.map fun entry => entry.2.inherited.length).sum

theorem length_stackNumbers (reconstruction : Reconstruction Time) :
    reconstruction.stackNumbers.length = reconstruction.totalDepth := by
  simp [stackNumbers, totalDepth, ThreadState.depth, List.length_flatMap]

theorem length_inheritedKeys (reconstruction : Reconstruction Time) :
    reconstruction.inheritedKeys.length = reconstruction.totalInherited := by
  rw [inheritedKeys, List.length_flatMap, totalInherited]

/-! ## Open and completed calls -/

/-- The records with given numbers that are complete, or not, are counted by number. -/
theorem length_filter_records
    (reconstruction : Reconstruction Time)
    (numbers : List Nat)
    (complete : Bool) :
    ((numbers.filterMap fun number => reconstruction.records[number]?).filter
        fun record => record.isComplete = complete).length =
      numbers.countP fun number => reconstruction.completeAt number = some complete := by
  rw [← List.countP_eq_length_filter, List.countP_filterMap]
  apply List.countP_congr
  intro number _
  rw [completeAt]
  cases reconstruction.records[number]? with
  | none => simp
  | some record => simp

theorem completedCount_eq_countP (reconstruction : Reconstruction Time) :
    reconstruction.completedCount =
      reconstruction.callNumbers.countP
        fun number => reconstruction.completeAt number = some true := by
  rw [completedCount, completed, callNumbers, List.length_flatMap, List.countP_flatMap]
  congr 1
  apply List.map_congr_left
  intro entry _
  rw [List.length_map, completedOf, Function.comp_apply, ← length_filter_records]
  simp

theorem openCount_eq_countP (reconstruction : Reconstruction Time) :
    reconstruction.openCount =
      reconstruction.callNumbers.countP
        fun number => reconstruction.completeAt number = some false := by
  rw [openCount, callNumbers, List.length_flatMap, List.countP_flatMap]
  congr 1
  apply List.map_congr_left
  intro entry _
  rw [Function.comp_apply, ← length_filter_records]
  simp

/-- A listed record is complete or open. -/
theorem Owned.completedCount_add_openCount
    {reconstruction : Reconstruction Time}
    (owned : reconstruction.Owned) :
    reconstruction.completedCount + reconstruction.openCount =
      reconstruction.callNumbers.length := by
  rw [completedCount_eq_countP, openCount_eq_countP, List.length_eq_countP_add_countP
    fun number => reconstruction.completeAt number = some true]
  congr 1
  apply List.countP_congr
  intro number member
  have there := (isSome_completeAt reconstruction number).mpr (owned.listedBound number member)
  obtain ⟨complete, isComplete⟩ := Option.isSome_iff_exists.mp there
  cases complete <;> simp [isComplete]

/-- Where every number on a stack is listed, the open calls are those on the stacks. -/
theorem Owned.openCount_eq
    {reconstruction : Reconstruction Time}
    (owned : reconstruction.Owned)
    (subset : reconstruction.stackNumbers ⊆ reconstruction.callNumbers) :
    reconstruction.openCount = reconstruction.totalDepth := by
  rw [openCount_eq_countP, ← length_stackNumbers, List.countP_eq_length_filter]
  apply List.Perm.length_eq
  refine (List.perm_ext_iff_of_nodup (owned.listed.filter _) owned.stacked).mpr ?_
  intro number
  rw [List.mem_filter, decide_eq_true_eq]
  constructor
  · rintro ⟨listed, isOpen⟩
    exact (owned.open_iff number listed).mp isOpen
  · intro stacked
    exact ⟨subset stacked, (owned.open_iff number (subset stacked)).mpr stacked⟩

/-! ## Counts of whole logs -/

variable [Arithmetic Time]

/-- Every entry lists one number. -/
theorem length_callNumbers_ofEvents
    (rule : ParentRule Time)
    (events : List (Event Time)) :
    (ofEvents rule events).callNumbers.length = entryCount events := by
  apply ofEvents_induction fun events reconstruction =>
    reconstruction.callNumbers.length = entryCount events
  case initial => rfl
  case unrecorded => exact fun _ _ _ counted => counted
  case enters =>
    intro front event isEntry counted
    obtain ⟨number, copies, enters, _⟩ := exists_entersAs rule (ofEvents rule front) event
    rw [enters.listed.length_eq, List.length_append, counted, entryCount, entryCount,
      List.countP_append]
    simp [isEntry]
  case leaves =>
    intro front event isExit counted
    rw [callNumbers_leave, counted, entryCount, entryCount, List.countP_append]
    simp [isExit]

/-- What is on the stacks and what has left them is what was inherited and entered, where
an unmatched exit leaves nothing. -/
theorem totalDepth_add_exitCount
    (rule : ParentRule Time)
    (events : List (Event Time)) :
    (ofEvents rule events).totalDepth + exitCount events =
      (ofEvents rule events).totalInherited + entryCount events +
        (ofEvents rule events).unmatched := by
  apply ofEvents_induction fun events reconstruction =>
    reconstruction.totalDepth + exitCount events =
      reconstruction.totalInherited + entryCount events + reconstruction.unmatched
  case initial => rfl
  case unrecorded => exact fun _ _ _ balanced => balanced
  case enters =>
    intro front event isEntry balanced
    obtain ⟨number, copies, enters, _⟩ := exists_entersAs rule (ofEvents rule front) event
    have stacked := enters.stacked.length_eq
    have inherited := enters.inherited
    have counts : entryCount (front ++ [event]) = entryCount front + 1 ∧
        exitCount (front ++ [event]) = exitCount front := by
      simp [entryCount, exitCount, isEntry]
    rw [List.length_append, List.length_cons, length_stackNumbers, length_stackNumbers]
      at stacked
    rw [length_inheritedKeys, length_inheritedKeys] at inherited
    rw [unmatched_enter, counts.1, counts.2]
    omega
  case leaves =>
    intro front event isExit balanced
    have counts : entryCount (front ++ [event]) = entryCount front ∧
        exitCount (front ++ [event]) = exitCount front + 1 := by
      simp [entryCount, exitCount, isExit]
    rw [counts.1, counts.2]
    cases stack : (ofEvents rule front).stackOf event.thread with
    | nil =>
        rw [leave_of_stackOf_eq_nil stack]
        change (ofEvents rule front).totalDepth + (exitCount front + 1) =
          (ofEvents rule front).totalInherited + entryCount front +
            ((ofEvents rule front).unmatched + 1)
        omega
    | cons ended below =>
        have leaves := leavesAs stack
        have stacked := leaves.stacked.length_eq
        have inherited := leaves.inherited
        rw [List.length_cons, length_stackNumbers, length_stackNumbers] at stacked
        rw [length_inheritedKeys, length_inheritedKeys] at inherited
        rw [unmatched_leave, if_neg (by rw [stack]; exact List.cons_ne_nil _ _)]
        omega

/-- Only exits are counted as unmatched. -/
theorem unmatched_le_exitCount
    (rule : ParentRule Time)
    (events : List (Event Time)) :
    (ofEvents rule events).unmatched ≤ exitCount events := by
  apply ofEvents_induction fun events reconstruction =>
    reconstruction.unmatched ≤ exitCount events
  case initial => exact le_rfl
  case unrecorded => exact fun _ _ _ bound => bound
  case enters =>
    intro front event _ bound
    rw [unmatched_enter, exitCount, List.countP_append]
    exact Nat.le_add_right_of_le bound
  case leaves =>
    intro front event isExit bound
    rw [unmatched_leave, exitCount, List.countP_append]
    refine Nat.add_le_add bound ?_
    rw [List.countP_singleton, isExit]
    split <;> simp

/-- Without parents nothing is inherited. -/
theorem totalInherited_none (events : List (Event Time)) :
    (ofEvents ParentStrategy.none.rule events).totalInherited = 0 := by
  rw [← length_inheritedKeys, List.length_eq_zero_iff, inheritedKeys, List.flatMap_eq_nil_iff]
  intro entry member
  have inherited := inheritedOf_ofEvents_none events entry.1
  have found := (FirstSeen.find?_eq_some_iff (nodup_threads ParentStrategy.none.rule events)).mpr
    member
  rw [inheritedOf, thread?, found] at inherited
  exact inherited

/-- Every event is accounted for. Under any rule for parents, each entry is a completed or
an open call; on the stacks of all threads, none counted twice, is what they have inherited
and what was entered, less the exits that are not counted as unmatched; and the calls of a
function are the entries with its name. Without parents each exit completes a call or is
unmatched. -/
theorem events_accountedFor
    (rule : ParentRule Time)
    (events : List (Event Time)) :
    let reconstruction := ofEvents rule events
    let solitary := ofEvents ParentStrategy.none.rule events
    entryCount events = reconstruction.completedCount + reconstruction.openCount ∧
    (FirstSeen.keys reconstruction.threads).Nodup ∧
    reconstruction.unmatched ≤ exitCount events ∧
    (reconstruction.totalDepth : Int) =
      reconstruction.totalInherited + entryCount events -
        (exitCount events - reconstruction.unmatched) ∧
    (∀ function, reconstruction.callCount function =
      events.countP fun event => event.kind.isEntry && event.key.function = function) ∧
    exitCount events = solitary.completedCount + solitary.unmatched := by
  intro reconstruction solitary
  have counted : reconstruction.completedCount + reconstruction.openCount = entryCount events :=
    (owned_ofEvents rule events).completedCount_add_openCount.trans
      (length_callNumbers_ofEvents rule events)
  have balanced : reconstruction.totalDepth + exitCount events =
      reconstruction.totalInherited + entryCount events + reconstruction.unmatched :=
    totalDepth_add_exitCount rule events
  refine ⟨counted.symm, nodup_threads rule events, unmatched_le_exitCount rule events, by omega,
    callCount_ofEvents rule events, ?_⟩
  have alone : solitary.Owned := owned_ofEvents ParentStrategy.none.rule events
  have solitaryCounted : solitary.completedCount + solitary.openCount = entryCount events :=
    alone.completedCount_add_openCount.trans (length_callNumbers_ofEvents _ events)
  have opened : solitary.openCount = solitary.totalDepth :=
    alone.openCount_eq (stackNumbers_none_subset events)
  have solitaryBalanced : solitary.totalDepth + exitCount events =
      solitary.totalInherited + entryCount events + solitary.unmatched :=
    totalDepth_add_exitCount ParentStrategy.none.rule events
  have inherited : solitary.totalInherited = 0 := totalInherited_none events
  omega

end Reconstruction
end FlameProfile
