import Mathlib
import FlameProfile.Proofs.Stack.Weight
import FlameProfile.Proofs.Tree.Closing

/-!
# Stacks of all kinds are merged

Whatever stacks there are, with whatever weights and in whatever order, they are merged to
a tree: what a merge gets has been sorted by the order in which it wants the paths, be it
one list of stacks or the paths that two lists have together. Every frame of the tree has a
start, and its label stands in one of the paths.
-/

namespace FlameProfile

variable {Weight : Type} [Arithmetic Weight]

/-- Every frame of a tree has a start and a label that stands in a path of some stacks. -/
structure Tree.IsMadeOf
    (tree : Tree Weight)
    (collapsed : List (Stack Weight)) : Prop where
  started : ∀ node ∈ tree.nodes, node.start ≠ none
  labelled : ∀ node ∈ tree.nodes, ∃ stack ∈ collapsed, node.label ∈ stack.path

omit [Arithmetic Weight] in
theorem Tree.IsMadeOf.mono
    {tree : Tree Weight}
    {collapsed more : List (Stack Weight)}
    (madeOf : tree.IsMadeOf collapsed)
    (contained : ∀ stack ∈ collapsed, ∃ other ∈ more, other.path = stack.path) :
    tree.IsMadeOf more where
  started := madeOf.started
  labelled node member := by
    obtain ⟨stack, isStack, inPath⟩ := madeOf.labelled node member
    obtain ⟨other, isOther, samePath⟩ := contained stack isStack
    exact ⟨other, isOther, samePath ▸ inPath⟩

/-- Every paired stack has the path of a stack that was taken into account. -/
theorem PairedStack.exists_path_eq
    {baseline target : List (Stack Weight)}
    {paired : PairedStack Weight}
    (member : paired ∈ ofStacks baseline target) :
    ∃ stack ∈ baseline ++ target, stack.path = paired.target.path := by
  have targetIndexed : ∀ entry ∈ target.foldl addTarget [], entry.2.target.path = entry.1 :=
    FirstSeen.forall_foldl _ _ _ (fun path (paired : PairedStack Weight) =>
      paired.target.path = path) (by simp) (by intros; rfl) (by intros; assumption) target
  have indexed : ∀ entry ∈ baseline.foldl addBaseline (target.foldl addTarget []),
      entry.2.target.path = entry.1 :=
    FirstSeen.forall_foldl _ _ _ (fun path (paired : PairedStack Weight) =>
      paired.target.path = path) targetIndexed (by intros; rfl) (by intros; assumption) baseline
  obtain ⟨entry, inTable, rfl⟩ := List.mem_map.mp ((Sorting.sort_perm _ _).mem_iff.mp member)
  have isKey : entry.1 ∈ FirstSeen.keys (baseline.foldl addBaseline (target.foldl addTarget [])) :=
    List.mem_map_of_mem inTable
  rw [indexed entry inTable]
  rcases (FirstSeen.mem_keys_foldl Stack.path _ _ baseline).mp isKey with fromTarget | found
  · rcases (FirstSeen.mem_keys_foldl Stack.path _ _ target).mp fromTarget with none | found
    · exact absurd none List.not_mem_nil
    · obtain ⟨stack, isStack, path⟩ := found
      exact ⟨stack, List.mem_append_right baseline isStack, path⟩
  · obtain ⟨stack, isStack, path⟩ := found
    exact ⟨stack, List.mem_append_left target isStack, path⟩

section Ordered

variable [OrderedArithmetic Weight]

/-- Sorted arrivals are merged to a tree that is made of them. -/
theorem Merge.exists_isMadeOf
    {arrivals : List (Arrival Weight)}
    (sorted : Sorted arrivals) :
    ∃ merge : Merge Weight,
      empty.pushAll arrivals = .ok merge ∧
      merge.finish.total = Stack.covered (arrivals.map Prod.fst) ∧
      merge.finish.IsMadeOf (arrivals.map Prod.fst) := by
  obtain ⟨merge, stems, merged, nodes, total, -, complete⟩ := exists_pushAll sorted
  have isFrame : ∀ node ∈ merge.finish.nodes, ∃ stem ∈ stems, nodeOf arrivals stem = node := by
    intro node member
    rw [nodes] at member
    exact List.mem_map.mp (Node.mem_of_mem_insertAll member)
  refine ⟨merge, merged, ?_, ?_, ?_⟩
  · rw [total, offsetAfter, Stack.covered, List.foldl_map]
  · intro node member
    obtain ⟨stem, -, rfl⟩ := isFrame node member
    exact Option.some_ne_none _
  · intro node member
    obtain ⟨stem, isStem, rfl⟩ := isFrame node member
    obtain ⟨nonempty, arrival, arrives, starts⟩ := (complete stem).mp isStem
    have label : (nodeOf arrivals stem).label = stem.getLast nonempty := by
      rw [nodeOf, close, label_frameOf, List.getLast?_eq_getLast_of_ne_nil nonempty,
        Option.getD_some]
    refine ⟨arrival.1, List.mem_map_of_mem arrives, ?_⟩
    rw [label]
    exact starts.subset (List.getLast_mem nonempty)

/-- Stacks are merged to a tree that covers their weight. -/
theorem Tree.exists_ofStacks (collapsed : List (Stack Weight)) :
    ∃ tree,
      ofStacks collapsed = .ok tree ∧
      tree.total = Stack.covered (Stack.sortByPath collapsed) ∧
      tree.IsMadeOf collapsed := by
  have sorted : Merge.Sorted ((Stack.sortByPath collapsed).map fun stack => (stack, none)) :=
    List.pairwise_map.mpr (Stack.isStableOrder_sortByPath collapsed).sorted
  obtain ⟨merge, merged, total, madeOf⟩ := Merge.exists_isMadeOf sorted
  rw [List.map_map, Function.comp_def, List.map_id'] at total madeOf
  refine ⟨merge.finish, by rw [ofStacks, merged]; rfl, total, madeOf.mono ?_⟩
  intro stack member
  exact ⟨stack, (Stack.isStableOrder_sortByPath collapsed).perm.mem_iff.mp member, rfl⟩

/-- The stacks of resources are in the order in which they are merged. -/
theorem Tree.exists_ofStacks_ofResources (resources : List (Resource Weight)) :
    ∃ tree,
      ofStacks (Stack.ofResources resources) = .ok tree ∧
      tree.total = Stack.covered (Stack.ofResources resources) ∧
      tree.IsMadeOf (Stack.ofResources resources) := by
  have inOrder : Stack.sortByPath (Stack.ofResources resources) = Stack.ofResources resources :=
    Sorting.sort_of_isSorted (Sorting.isSorted_sort (isWeak_pathOrder Stack.path) _)
  have merged := exists_ofStacks (Stack.ofResources resources)
  rwa [inOrder] at merged

/-- Two lists of stacks are merged to a tree that covers the weight of the target. -/
theorem Tree.exists_difference (baseline target : List (Stack Weight)) :
    ∃ tree,
      difference baseline target = .ok tree ∧
      tree.total =
        Stack.covered ((PairedStack.ofStacks baseline target).map PairedStack.target) ∧
      tree.IsMadeOf (baseline ++ target) := by
  have sorted : Merge.Sorted ((PairedStack.ofStacks baseline target).map fun paired =>
      (paired.target, some paired.delta)) :=
    List.pairwise_map.mpr (PairedStack.sorted_ofStacks baseline target)
  obtain ⟨merge, merged, total, madeOf⟩ := Merge.exists_isMadeOf sorted
  rw [List.map_map, Function.comp_def] at total madeOf
  refine ⟨merge.finish, by rw [difference, merged]; rfl, total, madeOf.mono ?_⟩
  intro stack member
  obtain ⟨paired, isPaired, rfl⟩ := List.mem_map.mp member
  exact PairedStack.exists_path_eq isPaired

end Ordered

end FlameProfile
