import Mathlib
import FlameProfile.Session

/-!
# What tasks ensure

A task that begins in a session ends with a value in a later session or fails. `Ensures`
says of both ends what holds there. Each way of building a task has one law that takes what
the task ensures back to what its parts ensure.
-/

namespace FlameProfile
namespace Task

variable {Fault Larger Value Next : Type}

/-- A task that begins in a session either is done or fails, and then holds what is said of
that end. -/
def Ensures
    (task : Task Fault Value)
    (session : Session)
    (done : Value -> Session -> Prop)
    (failed : Fault -> Prop) : Prop :=
  match task.run.run session with
  | (.ok value, after) => done value after
  | (.error fault, _) => failed fault

variable
  {task : Task Fault Value}
  {session : Session}
  {done : Value -> Session -> Prop}
  {failed : Fault -> Prop}

/-- A task ensures all that follows from what it ensures. -/
theorem Ensures.imp
    {weaker : Value -> Session -> Prop}
    {excused : Fault -> Prop}
    (ensures : task.Ensures session done failed)
    (doneWeaker : ∀ value after, done value after → weaker value after)
    (failedExcused : ∀ fault, failed fault → excused fault) :
    task.Ensures session weaker excused := by
  unfold Ensures at ensures ⊢
  rcases ended : task.run.run session with ⟨fault | value, after⟩ <;> rw [ended] at ensures
  · exact failedExcused _ ensures
  · exact doneWeaker _ after ensures

/-- A task that only has a value ensures what holds of it now. -/
@[simp] theorem ensures_pure (value : Value) :
    (pure value : Task Fault Value).Ensures session done failed ↔ done value session :=
  Iff.rfl

/-- Tasks in a row ensure what the second ensures after the first, and either may fail. -/
@[simp] theorem ensures_bind
    (next : Value -> Task Fault Next)
    {done : Next -> Session -> Prop} :
    (task >>= next).Ensures session done failed ↔
      task.Ensures session (fun value after => (next value).Ensures after done failed) failed := by
  have run : (task >>= next).run.run session =
      (ExceptT.bindCont next (task.run.run session).1).run (task.run.run session).2 := rfl
  rw [Ensures, Ensures, run]
  rcases task.run.run session with ⟨fault | value, after⟩ <;> rfl

/-- To look at the session leaves it as it is. -/
@[simp] theorem ensures_get {done : Session -> Session -> Prop} :
    (get : Task Fault Session).Ensures session done failed ↔ done session session :=
  Iff.rfl

/-- To look at the files leaves the session as it is. -/
@[simp] theorem ensures_workspace {done : Workspace -> Session -> Prop} :
    (workspace : Task Fault Workspace).Ensures session done failed ↔
      done session.workspace session :=
  Iff.rfl

/-- To store files changes nothing else in the session. -/
@[simp] theorem ensures_setWorkspace
    (workspace : Workspace)
    {done : Unit -> Session -> Prop} :
    (setWorkspace workspace : Task Fault Unit).Ensures session done failed ↔
      done () { session with workspace := workspace } :=
  Iff.rfl

/-- A line that is said is added to the output. -/
@[simp] theorem ensures_say
    (line : String)
    {done : Unit -> Session -> Prop} :
    (say line : Task Fault Unit).Ensures session done failed ↔
      done () { session with output := session.output ++ line ++ "\n" } :=
  Iff.rfl

/-- A warning is added behind those before it. -/
@[simp] theorem ensures_warn
    (warning : String)
    {done : Unit -> Session -> Prop} :
    (warn warning : Task Fault Unit).Ensures session done failed ↔
      done () { session with warnings := session.warnings ++ [warning] } :=
  Iff.rfl

/-- A result is either the value of the task or its fault. -/
theorem ensures_ofResult (result : Except Fault Value) :
    (ofResult result).Ensures session done failed ↔
      match result with
      | .ok value => done value session
      | .error fault => failed fault := by
  cases result <;> rfl

/-- A task whose faults are put into others ensures the same of its values. -/
@[simp] theorem ensures_failingWith
    (enlarge : Fault -> Larger)
    {failed : Larger -> Prop} :
    (task.failingWith enlarge).Ensures session done failed ↔
      task.Ensures session done fun fault => failed (enlarge fault) := by
  have run : (task.failingWith enlarge).run.run session =
      ((task.run.run session).1.mapError enlarge, (task.run.run session).2) := rfl
  rw [Ensures, Ensures, run]
  rcases task.run.run session with ⟨fault | value, after⟩ <;> rfl

-- The laws above are all that is used of a task; unfolded, it would be run.
attribute [irreducible] Ensures

/-- Lines that are shown leave the files as they are. -/
theorem ensures_forM_say
    (lines : List String)
    {done : Unit -> Session -> Prop}
    (unaltered : ∀ after, after.workspace = session.workspace → done () after) :
    (lines.forM say : Task Fault Unit).Ensures session done failed := by
  induction lines generalizing session with
  | nil => exact (ensures_pure ()).mpr (unaltered session rfl)
  | cons line rest inductionHypothesis =>
      refine (ensures_bind fun _ => rest.forM say).mpr ((ensures_say line).mpr ?_)
      exact inductionHypothesis unaltered

end Task
end FlameProfile
