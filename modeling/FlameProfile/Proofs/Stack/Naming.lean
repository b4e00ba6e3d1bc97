import Mathlib
import FlameProfile.Proofs.Call.Interleaving
import FlameProfile.Proofs.Tree.Failure

/-!
# Where labels come from

Every label in a path of a log is the function of a call that was entered in it, the
nameless root apart. What is merged from the stacks of a log has no other labels.
-/

namespace FlameProfile

variable {Time : Type}

namespace Reconstruction

variable [Arithmetic Time]

/-- The labels in the path of a call are functions that the log enters, below the root. -/
theorem mem_functions_of_mem_path
    {rule : ParentRule Time}
    {events : List (Event Time)}
    {key : EventKey}
    {record : CallRecord Time}
    (isCall : record ∈ (ofEvents rule events).callsOf key)
    {label : String}
    (inPath : label ∈ record.path key) :
    label ∈ "" :: events.map fun event => event.key.function := by
  rcases List.mem_cons.mp inPath with root | below
  · exact root ▸ List.mem_cons_self
  · obtain ⟨caller, isCaller, rfl⟩ := List.mem_map.mp below
    have isKey := (grounds_of_mem_callsOf isCall).mem_keys isCaller
    obtain ⟨event, isEvent, -, rfl⟩ := (mem_keys_ofEvents rule events caller).mp isKey
    exact List.mem_cons_of_mem _ (List.mem_map_of_mem isEvent)

end Reconstruction

variable [Arithmetic Time]

/-- The stacks of the calls of a log. -/
def Stack.ofLog
    (rule : ParentRule Time)
    (events : List (Event Time)) : List (Stack Time) :=
  ofResources (Reconstruction.ofEvents rule events).resources

/-- The labels in the stacks of a log are functions that the log enters, below the root. -/
theorem Stack.mem_functions_of_mem_path
    {rule : ParentRule Time}
    {events : List (Event Time)}
    {stack : Stack Time}
    (member : stack ∈ ofLog rule events)
    {label : String}
    (inPath : label ∈ stack.path) :
    label ∈ "" :: events.map fun event => event.key.function := by
  obtain ⟨resource, isResource, inPath⟩ :=
    (exists_path_ofResources_iff (label ∈ ·)).mp ⟨stack, member, inPath⟩
  obtain ⟨key, record, isCall, inPath⟩ :=
    (Reconstruction.exists_resource_iff fun path _ => label ∈ path).mp
      ⟨resource, isResource, inPath⟩
  exact Reconstruction.mem_functions_of_mem_path isCall inPath

end FlameProfile
