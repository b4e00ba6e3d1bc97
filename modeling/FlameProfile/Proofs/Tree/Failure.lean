import Mathlib
import FlameProfile.Proofs.Call.Grounding
import FlameProfile.Proofs.Stack.Coalescing
import FlameProfile.Proofs.Tree.Depth

/-!
# Failing frames

A frame that no stack ends at has the failure of the stack that opens it, whatever
that one did. Where every call of a log is over, there is no such frame but the root:
the callers of a call are calls of their own, so every stem below the root is the path
of a resource. Hence a frame is marked as failing exactly if a call with its very path
was left with an exception.
-/

namespace FlameProfile

/-! ## Paths of calls -/

/-- The path of a call of a key: the functions of its callers and its own, below a root
without a name. -/
def CallRecord.path
    {Time : Type}
    (record : CallRecord Time)
    (key : EventKey) : List String :=
  "" :: (record.trace ++ [key]).map fun caller => caller.function

/-- An exit with an exception leaves a text, and no other exit does. -/
theorem Bracket.exceptions_record_ne_nil_iff
    {Time : Type}
    [Arithmetic Time]
    (own : List (Event Time))
    (bracket : Bracket Time) :
    (record own bracket).exceptions ≠ [] ↔ bracket.exit.1.kind.isException = true := by
  rw [record, Reconstruction.raised]
  split
  next isException => simp [isException]
  next isOther => simp [isOther]

namespace Reconstruction

section Paths

variable {Time : Type} [Arithmetic Time] {rule : ParentRule Time} {events : List (Event Time)}

/-- The resources of a log are its completed calls, with their paths and exceptions. -/
theorem exists_resource_iff
    (holds : List String -> List String -> Prop) :
    (∃ resource ∈ (ofEvents rule events).resources, holds resource.path resource.exceptions) ↔
      ∃ key, ∃ record ∈ (ofEvents rule events).callsOf key,
        holds (record.path key) record.exceptions := by
  have samePath : ∀ (key : EventKey) (record : CallRecord Time),
      record.path key =
        "" :: (record.trace.map EventKey.toLocation).map Location.function ++ [key.function] := by
    intro key record
    rw [CallRecord.path, List.map_append, List.map_map]
    rfl
  constructor
  · rintro ⟨resource, member, kind⟩
    obtain ⟨⟨key, record⟩, completed, rfl⟩ := List.mem_map.mp member
    refine ⟨key, record, mem_completed_iff.mp completed, ?_⟩
    rw [samePath]
    exact kind
  · rintro ⟨key, record, member, kind⟩
    refine ⟨_, List.mem_map_of_mem (mem_completed_iff.mpr member), ?_⟩
    rw [samePath] at kind
    exact kind

/-- Where no call is left open, the stems below the root are the paths of calls. -/
theorem exists_path_of_isPrefix
    {key : EventKey}
    {record : CallRecord Time}
    {stem : List String}
    (noneOpen : (ofEvents rule events).openCount = 0)
    (member : record ∈ (ofEvents rule events).callsOf key)
    (starts : stem <+: record.path key)
    (proper : 2 ≤ stem.length) :
    ∃ outer, ∃ caller ∈ (ofEvents rule events).callsOf outer, caller.path outer = stem := by
  obtain ⟨count, isSucc⟩ : ∃ count, stem.length = count + 2 := ⟨stem.length - 2, by omega⟩
  have whole := List.prefix_iff_eq_take.mp starts
  rw [isSucc, CallRecord.path, List.take_succ_cons, ← List.map_take] at whole
  -- The stem is as long as a beginning of the keys that is not empty and so has a last key.
  have inside : count + 1 ≤ (record.trace ++ [key]).length := by
    have shorter := starts.length_le
    rw [isSucc, CallRecord.path, List.length_cons, List.length_map] at shorter
    omega
  have begun : (record.trace ++ [key]).take (count + 1) ≠ [] := by
    apply List.ne_nil_of_length_pos
    rw [List.length_take]
    omega
  have split := List.dropLast_append_getLast begun
  obtain ⟨caller, callerMember, callerTrace⟩ := exists_mem_callsOf_of_isPrefix noneOpen member
    (split ▸ List.take_prefix (count + 1) (record.trace ++ [key]))
  refine ⟨_, caller, callerMember, ?_⟩
  rw [CallRecord.path, callerTrace, split, whole]

/-- Of a key, the calls that left an exception are those of the brackets that an
exception closed. -/
theorem exists_raised_iff
    {own : List (Event Time)}
    {key : EventKey}
    {callOf : Bracket Time → CallRecord Time}
    (callsAre : (ofEvents rule events).callsOf key = (Bracket.matched own key).map callOf)
    (recorded : ∀ bracket ∈ Bracket.ofLog own,
      ∃ inherited, callOf bracket = (Bracket.record own bracket).within inherited)
    (path : List String) :
    (∃ record ∈ (ofEvents rule events).callsOf key,
        record.path key = path ∧ record.exceptions ≠ []) ↔
      ∃ bracket ∈ Bracket.matched own key,
        bracket.exit.1.kind.isException = true ∧ (callOf bracket).path key = path := by
  have raises : ∀ bracket ∈ Bracket.matched own key,
      (callOf bracket).exceptions ≠ [] ↔ bracket.exit.1.kind.isException = true := by
    intro bracket isMatched
    obtain ⟨inherited, isRecord⟩ := recorded bracket (Bracket.mem_ofLog_of_mem_matched isMatched)
    rw [isRecord]
    exact Bracket.exceptions_record_ne_nil_iff own bracket
  rw [callsAre]
  constructor
  · rintro ⟨record, isCall, samePath, raised⟩
    obtain ⟨bracket, isMatched, rfl⟩ := List.mem_map.mp isCall
    exact ⟨bracket, isMatched, (raises bracket isMatched).mp raised, samePath⟩
  · rintro ⟨bracket, isMatched, isException, samePath⟩
    exact ⟨callOf bracket, List.mem_map_of_mem isMatched, samePath,
      (raises bracket isMatched).mpr isException⟩

end Paths

end Reconstruction

/-! ## Failing frames of a log -/

namespace Stack

variable {rule : ParentRule Rat} {events : List (Event Rat)}

/-- Where no call is left open, every stem of two frames or more is the path of a
stack. -/
theorem exists_path_of_prefix_ofEvents
    (noneOpen : (Reconstruction.ofEvents rule events).openCount = 0)
    {stack : Stack Rat}
    (member : stack ∈ ofResources (Reconstruction.ofEvents rule events).resources)
    {stem : List String}
    (starts : stem <+: stack.path)
    (proper : 2 ≤ stem.length) :
    ∃ other ∈ ofResources (Reconstruction.ofEvents rule events).resources, other.path = stem := by
  obtain ⟨resource, resourceMember, begins⟩ :=
    (exists_path_ofResources_iff (stem <+: ·)).mp ⟨stack, member, starts⟩
  obtain ⟨key, record, isCall, begins⟩ :=
    (Reconstruction.exists_resource_iff fun path _ => stem <+: path).mp
      ⟨resource, resourceMember, begins⟩
  have caller := Reconstruction.exists_path_of_isPrefix noneOpen isCall begins proper
  rw [exists_path_ofResources_iff (· = stem)]
  exact (Reconstruction.exists_resource_iff fun path _ => path = stem).mpr caller

/-- The frame of a path has failed if a stack of the path has. -/
theorem IsFrame.failed_iff
    {ordered : List (Stack Rat)}
    {stem : List String}
    {node : Node Rat}
    (isFrame : IsFrame ordered stem node)
    (ends : ∃ stack ∈ ordered, stack.path = stem) :
    node.failed = true ↔ ∃ stack ∈ ordered, stack.path = stem ∧ stack.failed = true := by
  obtain ⟨first, last, opener, frame⟩ := isFrame
  rw [frame.failed, if_pos ends, List.any_eq_true]
  simp

end Stack

namespace Tree

/-- A frame is marked as failing exactly if a call with its path has failed. Where no
call of a log is left open, every stem of two frames or more is the path of a stack,
and the frame of such a path in the tree is marked exactly if one of the calls with
the path was closed by an exit with an exception. -/
theorem failed_iff_exists_exception
    (rule : ParentRule Rat)
    (events : List (Event Rat))
    (noneOpen : (Reconstruction.ofEvents rule events).openCount = 0) :
    let collapsed := Stack.ofResources (Reconstruction.ofEvents rule events).resources
    (∀ stack ∈ collapsed, ∀ stem, stem <+: stack.path → 2 ≤ stem.length →
      ∃ other ∈ collapsed, other.path = stem) ∧
    ∃ (tree : Tree Rat) (stems : List (List String)) (callOf : Bracket Rat → CallRecord Rat),
      ofStacks collapsed = .ok tree ∧
      (∀ key, (Reconstruction.ofEvents rule events).callsOf key =
        (Bracket.matched (events.filter fun event => event.thread = key.thread) key).map callOf) ∧
      stems.Nodup ∧
      (∀ stem, stem ∈ stems ↔ stem ≠ [] ∧ ∃ stack ∈ collapsed, stem <+: stack.path) ∧
      List.Forall₂
        (fun stem node =>
          Stack.IsFrame (Stack.sortByPath collapsed) stem node ∧
            (2 ≤ stem.length →
              (node.failed = true ↔
                ∃ key, ∃ bracket ∈
                  Bracket.matched (events.filter fun event => event.thread = key.thread) key,
                  bracket.exit.1.kind.isException = true ∧ (callOf bracket).path key = stem)))
        stems tree.nodes := by
  intro collapsed
  have positive : ∀ resource ∈ (Reconstruction.ofEvents rule events).resources,
      0 < resource.amount :=
    fun resource member => Reconstruction.amount_pos_of_mem_resources member
  obtain ⟨tree, stems, built, nodes, _, distinct, isStem⟩ := exists_nodes_ofResources positive
  obtain ⟨callOf, callsAre, recorded⟩ := Reconstruction.exists_callOf rule events
  have perm := (Stack.isStableOrder_sortByPath collapsed).perm
  have sorted := Merge.sorted_arrivalsOf (Stack.isStableOrder_sortByPath collapsed).sorted
  have ofCollapsed : ∀ stem, stem ∈ stems ↔
      stem ≠ [] ∧ ∃ stack ∈ collapsed, stem <+: stack.path := by
    intro stem
    rw [isStem, Stack.IsStem, Stack.exists_path_ofResources_iff (stem <+: ·)]
    simp [Stack.ofResource]
  have closed : ∀ stack ∈ collapsed, ∀ stem, stem <+: stack.path → 2 ≤ stem.length →
      ∃ other ∈ collapsed, other.path = stem :=
    fun stack member stem starts proper =>
      Stack.exists_path_of_prefix_ofEvents noneOpen member starts proper
  refine ⟨closed, tree, stems, callOf, built, callsAre, distinct, ofCollapsed, ?_⟩
  rw [nodes, List.forall₂_map_right_iff, List.forall₂_same]
  intro stem member
  obtain ⟨nonempty, stack, stackMember, starts⟩ := (ofCollapsed stem).mp member
  have begun : Merge.block stem (Merge.arrivalsOf (Stack.sortByPath collapsed)) ≠ [] :=
    (Merge.weighs_ofResources positive).block_ne_nil ((isStem stem).mp member).2
  have isFrame := Merge.isFrame_nodeOf sorted nonempty begun
  refine ⟨isFrame, fun proper => ?_⟩
  obtain ⟨other, otherMember, ends⟩ := closed stack stackMember stem starts proper
  have marked := isFrame.failed_iff ⟨other, perm.mem_iff.mpr otherMember, ends⟩
  simp only [perm.mem_iff] at marked
  rw [marked, Stack.exists_failed_ofResources_iff,
    Reconstruction.exists_resource_iff fun path exceptions => path = stem ∧ exceptions ≠ []]
  apply exists_congr
  intro key
  exact Reconstruction.exists_raised_iff (callsAre key) (recorded key.thread) stem

theorem failed_iff_exists_exception_interleavedLog :
    (Reconstruction.ofEvents ParentStrategy.nearest.rule
      Reconstruction.interleavedLog).openCount = 0 ∧
    let collapsed := Stack.ofResources
      (Reconstruction.ofEvents ParentStrategy.nearest.rule
        Reconstruction.interleavedLog).resources
    (∀ stack ∈ collapsed, ∀ stem, stem <+: stack.path → 2 ≤ stem.length →
      ∃ other ∈ collapsed, other.path = stem) ∧
    ∃ (tree : Tree Rat) (stems : List (List String)) (callOf : Bracket Rat → CallRecord Rat),
      ofStacks collapsed = .ok tree ∧
      (∀ key, (Reconstruction.ofEvents ParentStrategy.nearest.rule
          Reconstruction.interleavedLog).callsOf key =
        (Bracket.matched
          (Reconstruction.interleavedLog.filter fun event => event.thread = key.thread) key).map
            callOf) ∧
      stems.Nodup ∧
      (∀ stem, stem ∈ stems ↔ stem ≠ [] ∧ ∃ stack ∈ collapsed, stem <+: stack.path) ∧
      List.Forall₂
        (fun stem node =>
          Stack.IsFrame (Stack.sortByPath collapsed) stem node ∧
            (2 ≤ stem.length →
              (node.failed = true ↔
                ∃ key, ∃ bracket ∈
                  Bracket.matched
                    (Reconstruction.interleavedLog.filter fun event => event.thread = key.thread)
                    key,
                  bracket.exit.1.kind.isException = true ∧ (callOf bracket).path key = stem)))
        stems tree.nodes := by
  have noneOpen : (Reconstruction.ofEvents ParentStrategy.nearest.rule
      Reconstruction.interleavedLog).openCount = 0 := by decide +kernel
  exact ⟨noneOpen,
    failed_iff_exists_exception ParentStrategy.nearest.rule Reconstruction.interleavedLog noneOpen⟩

end Tree
end FlameProfile
