import Mathlib
import FlameProfile.Proofs.Stack.Coalescing
import FlameProfile.Proofs.Tree.Change
import FlameProfile.Proofs.Tree.Merging

/-!
# Differential trees of rearranged stacks

In exact arithmetic a differential tree does not depend on the order of its two
lists, but for one number: a path of the baseline alone is counted with the calls of
the stack that comes first, and a frame that it opens shows that count. Without the
counts the trees of rearranged lists are the same, frame by frame and in the same
order; with the counts they are the same if the first stacks of these paths agree.
-/

namespace FlameProfile

/-! ## Trees without their counts of calls -/

section Uncounted

variable {Weight : Type}

/-- The stack without its count of calls. -/
def Stack.uncounted (stack : Stack Weight) : Stack Weight :=
  { stack with calls := 0 }

/-- The node without its count of calls. -/
def Node.uncounted (node : Node Weight) : Node Weight :=
  { node with calls := 0 }

/-- The frame without its count of calls. -/
def OpenFrame.uncounted (frame : OpenFrame Weight) : OpenFrame Weight :=
  { frame with calls := 0 }

/-- The tree without its counts of calls. -/
def Tree.uncounted (tree : Tree Weight) : Tree Weight :=
  { tree with nodes := tree.nodes.map Node.uncounted }

/-- The merge without its counts of calls. -/
def Merge.uncounted (merge : Merge Weight) : Merge Weight where
  closed := merge.closed.map Node.uncounted
  opened := merge.opened.map OpenFrame.uncounted
  offset := merge.offset

@[simp] theorem Merge.path_uncounted (merge : Merge Weight) :
    merge.uncounted.path = merge.path := by
  rw [path, path, uncounted, List.map_map]
  rfl

variable [Arithmetic Weight]

/-- Counts of calls do not decide where a node is put. -/
theorem Node.map_uncounted_insertInto
    (node : Node Weight)
    (nodes : List (Node Weight)) :
    (node.insertInto nodes).map uncounted = node.uncounted.insertInto (nodes.map uncounted) := by
  induction nodes with
  | nil => rfl
  | cons other rest inductionHypothesis =>
      rw [insertInto, List.map_cons, insertInto, ← inductionHypothesis]
      exact apply_ite (List.map uncounted) _ _ _

namespace Merge

/-- Frames are closed alike without their counts of calls. -/
theorem closeTo_uncounted
    (kept : Nat)
    (offset : Weight)
    (opened : List (OpenFrame Weight))
    (closed : List (Node Weight)) :
    closeTo kept offset (opened.map OpenFrame.uncounted) (closed.map Node.uncounted) =
      ((closeTo kept offset opened closed).1.map OpenFrame.uncounted,
        (closeTo kept offset opened closed).2.map Node.uncounted) := by
  induction opened generalizing closed with
  | nil => rfl
  | cons frame below inductionHypothesis =>
      rw [List.map_cons, closeTo, closeTo, List.length_map]
      split
      next => rfl
      next => rw [← inductionHypothesis, Node.map_uncounted_insertInto]; rfl

/-- A stack adds the same to its frame without counts of calls. -/
theorem map_uncounted_addToLeaf
    (stack : Stack Weight)
    (delta : Option Weight)
    (opened : List (OpenFrame Weight)) :
    (addToLeaf stack delta opened).map OpenFrame.uncounted =
      addToLeaf stack.uncounted delta (opened.map OpenFrame.uncounted) := by
  cases opened <;> rfl

omit [Arithmetic Weight] in
/-- The same frames are opened without counts of calls. -/
theorem map_uncounted_openFrames
    (stack : Stack Weight)
    (delta : Option Weight)
    (offset : Weight)
    (opened : List (OpenFrame Weight))
    (labels : List String) :
    (openFrames stack delta offset opened labels).map OpenFrame.uncounted =
      openFrames stack.uncounted delta offset (opened.map OpenFrame.uncounted) labels := by
  rw [openFrames, openFrames, List.map_append, List.map_reverse, List.map_map]
  rfl

/-- Merging a stack without its count of calls gives what merging the stack gives,
without the counts. -/
theorem push_uncounted
    (merge : Merge Weight)
    (stack : Stack Weight)
    (delta : Option Weight) :
    merge.uncounted.push stack.uncounted delta = (merge.push stack delta).map uncounted := by
  have leaf := map_uncounted_addToLeaf stack delta
  have missing := map_uncounted_openFrames stack delta merge.offset
  rw [push, push, path_uncounted]
  change (if stack.path < merge.path then _ else _) = _
  split
  next => rfl
  next =>
    have opened := closeTo_uncounted (commonLength merge.path stack.path) merge.offset
      merge.opened merge.closed
    simp only [uncounted, Except.map, Except.ok.injEq, Merge.mk.injEq, apply_ite (List.map _),
      leaf, missing]
    change closeTo (commonLength merge.path stack.path) _ _ _ = _ at opened
    refine ⟨congrArg Prod.snd opened, ?_, rfl⟩
    exact congrArg (fun kept => if commonLength merge.path stack.path = stack.path.length then
      addToLeaf stack.uncounted delta kept else openFrames stack.uncounted delta merge.offset kept
        (stack.path.drop (commonLength merge.path stack.path))) (congrArg Prod.fst opened)

/-- Without counts of calls a merge takes the same stacks in, to the same effect. -/
theorem pushAll_uncounted
    (merge : Merge Weight)
    (arrivals : List (Arrival Weight)) :
    merge.uncounted.pushAll (arrivals.map (Prod.map Stack.uncounted id)) =
      (merge.pushAll arrivals).map uncounted := by
  induction arrivals generalizing merge with
  | nil => rfl
  | cons arrival rest inductionHypothesis =>
      obtain ⟨stack, delta⟩ := arrival
      rw [List.map_cons, Prod.map_apply, id, pushAll, pushAll, push_uncounted]
      cases merge.push stack delta with
      | error unsorted => rfl
      | ok next => exact inductionHypothesis next

/-- Without counts of calls a merge ends in the same tree. -/
theorem finish_uncounted (merge : Merge Weight) :
    merge.uncounted.finish = merge.finish.uncounted :=
  congrArg (fun closed => Tree.mk closed merge.offset)
    (congrArg Prod.snd (closeTo_uncounted 0 merge.offset merge.opened merge.closed))

end Merge

namespace PairedStack

/-- The paired stack without its count of calls. -/
def uncounted (paired : PairedStack Weight) : PairedStack Weight :=
  { paired with target := paired.target.uncounted }

/-- A stack of the target is paired alike without counts of calls. -/
theorem addTarget_uncounted
    (paths : FirstSeen (List String) (PairedStack Weight))
    (stack : Stack Weight) :
    addTarget (paths.map (Prod.map id uncounted)) stack.uncounted =
      (addTarget paths stack).map (Prod.map id uncounted) :=
  FirstSeen.map_record uncounted stack.path (⟨stack, 0⟩ : PairedStack Weight)
    (fun _ => by rfl) paths

/-- A stack of the baseline is paired alike without counts of calls. -/
theorem addBaseline_uncounted
    (paths : FirstSeen (List String) (PairedStack Weight))
    (stack : Stack Weight) :
    addBaseline (paths.map (Prod.map id uncounted)) stack.uncounted =
      (addBaseline paths stack).map (Prod.map id uncounted) :=
  FirstSeen.map_record uncounted stack.path
    (⟨{ stack with weight := 0, failed := false }, stack.weight⟩ : PairedStack Weight)
    (fun _ => by rfl) paths

/-- Pairing stacks without their counts of calls is pairing the stacks and leaving out
the counts. -/
theorem ofStacks_uncounted (baseline target : List (Stack Weight)) :
    ofStacks (baseline.map Stack.uncounted) (target.map Stack.uncounted) =
      (ofStacks baseline target).map uncounted := by
  have targets : (target.map Stack.uncounted).foldl addTarget ([].map (Prod.map id uncounted)) =
      (target.foldl addTarget []).map (Prod.map id uncounted) := by
    rw [List.foldl_map]
    exact List.foldl_hom _ addTarget_uncounted
  have both : (baseline.map Stack.uncounted).foldl addBaseline
        ((target.map Stack.uncounted).foldl addTarget ([].map (Prod.map id uncounted))) =
      (baseline.foldl addBaseline (target.foldl addTarget [])).map (Prod.map id uncounted) := by
    rw [targets, List.foldl_map]
    exact List.foldl_hom _ addBaseline_uncounted
  have sorted := Sorting.map_sort uncounted
    (fun first second : PairedStack Weight => pathOrder first.target.path second.target.path)
    ((baseline.foldl addBaseline (target.foldl addTarget [])).map Prod.snd)
  rw [List.map_nil] at both
  rw [ofStacks, both, ofStacks]
  rw [List.map_map] at sorted ⊢
  exact sorted.symm

end PairedStack

/-- The differential tree of stacks without their counts of calls is the differential
tree of the stacks, without the counts. -/
theorem Tree.difference_uncounted (baseline target : List (Stack Weight)) :
    difference (baseline.map Stack.uncounted) (target.map Stack.uncounted) =
      (difference baseline target).map uncounted := by
  have merged := Merge.pushAll_uncounted Merge.empty
    ((PairedStack.ofStacks baseline target).map fun paired => (paired.target, some paired.delta))
  rw [List.map_map] at merged
  rw [difference, difference, PairedStack.ofStacks_uncounted, List.map_map]
  refine (congrArg (Except.map Merge.finish) merged).trans ?_
  cases Merge.empty.pushAll ((PairedStack.ofStacks baseline target).map fun paired =>
    (paired.target, some paired.delta)) with
  | error unsorted => rfl
  | ok merge => exact congrArg Except.ok (Merge.finish_uncounted merge)

end Uncounted

/-! ## Pairing rearranged stacks -/

namespace Stack

/-- The calls of the first stack of a path. -/
def firstCalls
    (collapsed : List (Stack Rat))
    (path : List String) : Option Nat :=
  (collapsed.find? fun stack => stack.path = path).map calls

/-- The stack of a path that has calls, but no weight and no exception. -/
def idle
    (path : List String)
    (calls : Nat) : Stack Rat where
  path := path
  weight := 0
  calls := calls
  failed := false

/-- Of stacks without counts the first ones cannot be told apart. -/
theorem firstCalls_uncounted_perm
    {first second : List (Stack Rat)}
    (perm : first.Perm second)
    (path : List String) :
    firstCalls (first.map uncounted) path = firstCalls (second.map uncounted) path := by
  have none_or_zero : ∀ collapsed : List (Stack Rat),
      firstCalls (collapsed.map uncounted) path =
        if collapsed.any fun stack => stack.path = path then some 0 else none := by
    intro collapsed
    induction collapsed with
    | nil => rfl
    | cons stack rest inductionHypothesis =>
        rw [firstCalls] at inductionHypothesis
        rw [firstCalls, List.map_cons, List.find?_cons, List.any_cons]
        change (match decide (stack.path = path) with | true => _ | false => _ : Option _).map _ = _
        cases decide (stack.path = path) with
        | true => rfl
        | false => exact inductionHypothesis
  rw [none_or_zero, none_or_zero, perm.any_eq]

end Stack

namespace PairedStack

/-- Keeping the first of many items, if nothing was found before. -/
theorem foldl_keep
    {Item Value : Type}
    (view : Item -> Value)
    (found : Option Value)
    (items : List Item) :
    items.foldl (fun found item => some (found.elim (view item) id)) found =
      found.or (items.head?.map view) := by
  induction items generalizing found with
  | nil => exact (Option.or_none).symm
  | cons item rest inductionHypothesis =>
      rw [List.foldl_cons, inductionHypothesis]
      cases found <;> rfl

/-- The stacks of a path that are in the target are merged. -/
theorem target_find?_foldl_addTarget
    (target : List (Stack Rat))
    (path : List String) :
    (FirstSeen.find? path (target.foldl addTarget [])).map PairedStack.target =
      Stack.merged (target.filter fun stack => stack.path = path) := by
  have found : FirstSeen.find? path (target.foldl addTarget []) = _ :=
    FirstSeen.find?_foldl Stack.path (fun stack : Stack Rat => (⟨stack, 0⟩ : PairedStack Rat))
      (fun stack paired => { paired with target := paired.target.merge stack }) target
  rw [found]
  refine (List.foldl_hom (Option.map PairedStack.target) fun paired stack => ?_).symm
  cases paired <;> rfl

/-- Of a path of the baseline alone the calls of the first stack are kept. -/
theorem target_find?_foldl_addBaseline
    (paths : FirstSeen (List String) (PairedStack Rat))
    (baseline : List (Stack Rat))
    (path : List String) :
    (FirstSeen.find? path (baseline.foldl addBaseline paths)).map PairedStack.target =
      ((FirstSeen.find? path paths).map PairedStack.target).or
        ((Stack.firstCalls baseline path).map (Stack.idle path)) := by
  have found : FirstSeen.find? path (baseline.foldl addBaseline paths) = _ :=
    FirstSeen.find?_foldl Stack.path
      (fun stack : Stack Rat => (⟨Stack.idle stack.path stack.calls, stack.weight⟩ :
        PairedStack Rat))
      (fun stack paired => { paired with baselineWeight := paired.baselineWeight + stack.weight })
      baseline
  have kept : (baseline.filter fun stack => stack.path = path).head?.map
        (fun stack => Stack.idle stack.path stack.calls) =
      (Stack.firstCalls baseline path).map (Stack.idle path) := by
    rw [List.head?_filter, Stack.firstCalls, Option.map_map]
    refine Option.map_congr fun stack found => ?_
    have samePath : stack.path = path := by simpa using List.find?_some found
    rw [samePath]
    rfl
  rw [found, ← kept, ← foldl_keep]
  refine (List.foldl_hom (Option.map PairedStack.target) fun paired stack => ?_).symm
  cases paired <;> rfl

variable {baseline otherBaseline target otherTarget : List (Stack Rat)}

/-- The paired stacks are those that the table has, each at its path. -/
theorem mem_ofStacks_iff
    {paired : PairedStack Rat} :
    paired ∈ ofStacks baseline target ↔
      FirstSeen.find? paired.target.path (table baseline target) = some paired := by
  rw [(Merge.ofStacks_perm baseline target).mem_iff,
    FirstSeen.find?_eq_some_iff (nodup_keys_table baseline target)]
  constructor
  · intro member
    obtain ⟨⟨path, found⟩, entry, rfl⟩ := List.mem_map.mp member
    rwa [(of_mem_table entry).1]
  · intro entry
    exact List.mem_map_of_mem entry

/-- Paired stacks come in the order of their paths, which are all different. -/
theorem pairwise_ofStacks (baseline target : List (Stack Rat)) :
    (ofStacks baseline target).Pairwise fun first second =>
      first.target.path < second.target.path := by
  have distinct := Merge.nodup_path_arrivalsOfPairs baseline target
  rw [Merge.arrivalsOfPairs, List.map_map] at distinct
  refine ((sorted_ofStacks baseline target).and (List.pairwise_map.mp distinct)).imp ?_
  rintro first second ⟨notAbove, different⟩
  exact lt_of_le_of_ne (not_lt.mp notAbove) different

/-- Stacks of a path that are in the target are merged alike in whatever order they come;
of other paths the first stack of the baseline decides. -/
theorem target_find?_table_perm
    (targetPerm : otherTarget.Perm target)
    {path : List String}
    (sameCalls : (∀ stack ∈ target, stack.path ≠ path) →
      Stack.firstCalls otherBaseline path = Stack.firstCalls baseline path) :
    (FirstSeen.find? path (table otherBaseline otherTarget)).map PairedStack.target =
      (FirstSeen.find? path (table baseline target)).map PairedStack.target := by
  have ofPath : Stack.merged (otherTarget.filter fun stack => stack.path = path) =
      Stack.merged (target.filter fun stack => stack.path = path) :=
    Stack.merged_perm (targetPerm.filter _) fun stack member =>
      of_decide_eq_true (List.mem_filter.mp member).2
  rw [table, table, target_find?_foldl_addBaseline, target_find?_foldl_addBaseline,
    target_find?_foldl_addTarget, target_find?_foldl_addTarget, ofPath]
  cases ofTarget : target.filter fun stack => stack.path = path with
  | cons stack rest => rw [Stack.merged_cons, Option.some_or, Option.some_or]
  | nil =>
      have absent : ∀ stack ∈ target, stack.path ≠ path := by
        intro stack member
        simpa using List.filter_eq_nil_iff.mp ofTarget stack member
      rw [sameCalls absent]

/-- What a table holds at a path does not depend on the order of the stacks, if the
calls of the first stacks agree where the path is in the baseline alone. -/
theorem find?_table_perm
    (baselinePerm : otherBaseline.Perm baseline)
    (targetPerm : otherTarget.Perm target)
    {path : List String}
    (sameCalls : (∀ stack ∈ target, stack.path ≠ path) →
      Stack.firstCalls otherBaseline path = Stack.firstCalls baseline path) :
    FirstSeen.find? path (table otherBaseline otherTarget) =
      FirstSeen.find? path (table baseline target) := by
  have targets := target_find?_table_perm targetPerm sameCalls
  have weights := baselineWeight_find?_table otherBaseline otherTarget path
  have sameWeight : Stack.weightAt otherBaseline path = Stack.weightAt baseline path :=
    Stack.weightWhere_perm _ baselinePerm
  rw [sameWeight, ← baselineWeight_find?_table baseline target] at weights
  cases found : FirstSeen.find? path (table otherBaseline otherTarget) with
  | none =>
      rw [found] at targets
      exact (Option.map_eq_none_iff.mp targets.symm).symm
  | some other =>
      rw [found] at targets weights
      obtain ⟨paired, isPaired, sameTarget⟩ := Option.map_eq_some_iff.mp targets.symm
      rw [isPaired] at weights ⊢
      exact congrArg some (congrArg₂ PairedStack.mk sameTarget.symm weights)

/-- Rearranged stacks are paired to the same stacks, in the same order, if the calls
of the first stacks agree where a path is in the baseline alone. -/
theorem ofStacks_eq_of_perm
    (baselinePerm : otherBaseline.Perm baseline)
    (targetPerm : otherTarget.Perm target)
    (sameCalls : ∀ path, (∀ stack ∈ target, stack.path ≠ path) →
      Stack.firstCalls otherBaseline path = Stack.firstCalls baseline path) :
    ofStacks otherBaseline otherTarget = ofStacks baseline target := by
  apply List.Pairwise.eq_of_mem_iff (pairwise_ofStacks otherBaseline otherTarget)
    (pairwise_ofStacks baseline target)
  intro paired
  rw [mem_ofStacks_iff, mem_ofStacks_iff, find?_table_perm baselinePerm targetPerm (sameCalls _)]

end PairedStack

/-! ## Trees of rearranged stacks -/

namespace Tree

/-- Rearranged stacks have the same differential tree if the first stacks of each path that is
in the baseline alone have the same calls. -/
theorem difference_eq_of_perm
    {baseline otherBaseline target otherTarget : List (Stack Rat)}
    (baselinePerm : otherBaseline.Perm baseline)
    (targetPerm : otherTarget.Perm target)
    (sameCalls : ∀ path, (∀ stack ∈ target, stack.path ≠ path) →
      Stack.firstCalls otherBaseline path = Stack.firstCalls baseline path) :
    difference otherBaseline otherTarget = difference baseline target := by
  rw [difference, difference, PairedStack.ofStacks_eq_of_perm baselinePerm targetPerm sameCalls]

/-- In exact arithmetic rearranged stacks have a differential tree with the same nodes,
which differ at most in their counts of calls; they do not differ at all if the first
stacks of each path that is in the baseline alone have the same calls. -/
theorem difference_perm
    {baseline otherBaseline target otherTarget : List (Stack Rat)}
    (baselinePerm : otherBaseline.Perm baseline)
    (targetPerm : otherTarget.Perm target) :
    ∃ tree other : Tree Rat,
      difference baseline target = .ok tree ∧
      difference otherBaseline otherTarget = .ok other ∧
      other.uncounted = tree.uncounted ∧
      ((∀ path, (∀ stack ∈ target, stack.path ≠ path) →
        Stack.firstCalls otherBaseline path = Stack.firstCalls baseline path) →
        other = tree) := by
  obtain ⟨tree, made, _⟩ := exists_difference baseline target
  obtain ⟨other, otherMade, _⟩ := exists_difference otherBaseline otherTarget
  refine ⟨tree, other, made, otherMade, ?_, ?_⟩
  · have uncounted := difference_eq_of_perm (baselinePerm.map Stack.uncounted)
      (targetPerm.map Stack.uncounted)
      fun path _ => Stack.firstCalls_uncounted_perm baselinePerm path
    rw [difference_uncounted, difference_uncounted, made, otherMade] at uncounted
    exact Except.ok.inj uncounted
  · intro sameCalls
    have same := difference_eq_of_perm baselinePerm targetPerm sameCalls
    rw [made, otherMade] at same
    exact Except.ok.inj same

/-- A baseline in which two paths come twice, of which the target has one. -/
def repeatedBaseline : List (Stack Rat) :=
  [ ⟨["", "a"], 1, 1, false⟩, ⟨["", "b"], 2, 4, true⟩, ⟨["", "a"], 4, 2, false⟩
  , ⟨["", "b"], 1, 4, false⟩ ]

/-- A target in which a path comes twice. -/
def repeatedTarget : List (Stack Rat) :=
  [⟨["", "a"], 2, 3, false⟩, ⟨["", "c"], 1, 1, false⟩, ⟨["", "a"], 3, 1, true⟩]

theorem difference_perm_reverse :
    repeatedBaseline.reverse.Perm repeatedBaseline ∧
    repeatedTarget.reverse.Perm repeatedTarget ∧
    (∀ path, (∀ stack ∈ repeatedTarget, stack.path ≠ path) →
      Stack.firstCalls repeatedBaseline.reverse path = Stack.firstCalls repeatedBaseline path) ∧
    ∃ tree other : Tree Rat,
      difference repeatedBaseline repeatedTarget = .ok tree ∧
      difference repeatedBaseline.reverse repeatedTarget.reverse = .ok other ∧
      other.uncounted = tree.uncounted ∧ other = tree := by
  have baselinePerm := List.reverse_perm repeatedBaseline
  have targetPerm := List.reverse_perm repeatedTarget
  have sameCalls : ∀ path, (∀ stack ∈ repeatedTarget, stack.path ≠ path) →
      Stack.firstCalls repeatedBaseline.reverse path =
        Stack.firstCalls repeatedBaseline path := by
    intro path absent
    have notA : ["", "a"] ≠ path := absent _ List.mem_cons_self
    by_cases isB : ["", "b"] = path <;>
      simp [Stack.firstCalls, repeatedBaseline, notA, isB]
  obtain ⟨tree, other, made, otherMade, uncounted, same⟩ :=
    difference_perm baselinePerm targetPerm
  exact ⟨baselinePerm, targetPerm, sameCalls, tree, other, made, otherMade, uncounted,
    same sameCalls⟩

/-- The calls of a frame depend on which of two stacks of a path of the baseline comes
first. -/
theorem not_forall_difference_perm :
    ¬ ∀ baseline otherBaseline target otherTarget : List (Stack Rat),
      otherBaseline.Perm baseline → otherTarget.Perm target →
      ∃ tree other : Tree Rat,
        difference baseline target = .ok tree ∧
        difference otherBaseline otherTarget = .ok other ∧
        other.nodes.Perm tree.nodes := by
  intro independent
  let first : Stack Rat := ⟨["", "b"], 1, 1, false⟩
  let second : Stack Rat := ⟨["", "b"], 1, 2, false⟩
  let target : List (Stack Rat) := [⟨["", "a"], 1, 1, false⟩]
  obtain ⟨tree, other, made, otherMade, same⟩ := independent [first, second] [second, first]
    target target (List.Perm.swap _ _ _) (List.Perm.refl _)
  have fewer : (difference [first, second] target).map
      (fun tree => (tree.nodes.map Node.calls).sum) = .ok 3 := by decide +kernel
  have more : (difference [second, first] target).map
      (fun tree => (tree.nodes.map Node.calls).sum) = .ok 4 := by decide +kernel
  rw [made] at fewer
  rw [otherMade] at more
  have sameSum : (other.nodes.map Node.calls).sum = (tree.nodes.map Node.calls).sum :=
    (same.map Node.calls).sum_eq
  exact absurd ((Except.ok.inj more).symm.trans (sameSum.trans (Except.ok.inj fewer))) (by decide)

end Tree
end FlameProfile
