import Mathlib
import FlameProfile.Proofs.Tree.Depth

/-!
# Nested frames

In the tree of resources with positive amounts the frame of a caller spans the frames of
its callees, frames at one depth lie side by side, and the one frame without a caller
spans everything. In exact arithmetic all of this is a matter of stems: a longer stem
has fewer paths, and the paths below it are those below the shorter one and some of
those that begin with it.
-/

namespace FlameProfile

/-- Offset at which a node begins; zero when it is unknown. -/
def Node.origin (node : Node Rat) : Rat :=
  node.start.getD 0

/-- The frames of a tree lie side by side within the frames of their callers. -/
structure Tree.IsNested (tree : Tree Rat) : Prop where
  started : ∀ node ∈ tree.nodes, node.start = some node.origin
  spans : ∀ node ∈ tree.nodes,
    0 ≤ node.origin ∧ node.origin < node.finish ∧ node.finish ≤ tree.total
  apart : tree.nodes.Pairwise fun first second => first.depth = second.depth →
    first.finish ≤ second.origin ∨ second.finish ≤ first.origin
  caller : ∀ node ∈ tree.nodes, 0 < node.depth → ∃ outer ∈ tree.nodes,
    outer.depth + 1 = node.depth ∧ outer.origin ≤ node.origin ∧ node.finish ≤ outer.finish
  root : ∀ node ∈ tree.nodes, node.depth = 0 → node.origin = 0 ∧ node.finish = tree.total

namespace Stack

variable {collapsed : List (Stack Rat)} {outer stem : List String}

/-! ## Ranges of stems -/

/-- Paths of a wider kind weigh no less. -/
theorem weightWhere_mono
    {narrow wide : List String -> Bool}
    (positive : ∀ stack ∈ collapsed, 0 < stack.weight)
    (widens : ∀ path, narrow path = true → wide path = true) :
    weightWhere narrow collapsed ≤ weightWhere wide collapsed := by
  rw [weightWhere_eq_add narrow wide widens]
  exact le_add_of_nonneg_right
    (weightWhere_nonneg _ fun stack member => (positive stack member).le)

/-- The range of a stem ends behind the paths that are below the stem or begin with it. -/
theorem finish_extentOf
    (collapsed : List (Stack Rat))
    (stem : List String) :
    (extentOf collapsed stem).finish =
      weightWhere (fun path => path < stem || stem <+: path) collapsed := by
  have beginning : (fun path => (path < stem || stem <+: path) && !decide (path < stem)) =
      fun path => decide (stem <+: path) := by
    funext path
    by_cases starts : stem <+: path
    · simp [starts, Path.not_lt_of_isPrefix starts]
    · by_cases less : path < stem
      · simp [starts, less]
      · simp [starts, less]
  rw [weightWhere_eq_add (fun path => path < stem), beginning]
  · rfl
  · intro path less
    rw [less, Bool.true_or]

/-- A longer stem does not begin earlier. -/
theorem startOf_le_of_isPrefix
    (positive : ∀ stack ∈ collapsed, 0 < stack.weight)
    (starts : outer <+: stem) :
    startOf collapsed outer ≤ startOf collapsed stem := by
  apply weightWhere_mono positive
  intro path less
  exact decide_eq_true
    ((of_decide_eq_true less).trans_le (not_lt.mp (Path.not_lt_of_isPrefix starts)))

/-- A longer stem does not end later. -/
theorem finish_le_of_isPrefix
    (positive : ∀ stack ∈ collapsed, 0 < stack.weight)
    (starts : outer <+: stem) :
    (extentOf collapsed stem).finish ≤ (extentOf collapsed outer).finish := by
  rw [finish_extentOf, finish_extentOf]
  apply weightWhere_mono positive
  intro path within
  rw [Bool.or_eq_true, decide_eq_true_iff, decide_eq_true_iff] at within ⊢
  rcases within with less | begins
  · by_cases below : path < outer
    · exact Or.inl below
    · exact Or.inr (Path.prefix_of_between List.prefix_rfl starts below (lt_asymm less))
  · exact Or.inr (starts.trans begins)

/-- No range ends behind the weight of all paths. -/
theorem finish_le_sum
    (positive : ∀ stack ∈ collapsed, 0 < stack.weight)
    (stem : List String) :
    (extentOf collapsed stem).finish ≤ (collapsed.map Stack.weight).sum := by
  have whole : weightWhere (fun _ => true) collapsed = (collapsed.map Stack.weight).sum := by
    rw [weightWhere, List.filter_true]
  rw [finish_extentOf, ← whole]
  exact weightWhere_mono positive fun _ _ => rfl

/-- A stem that all paths begin with spans everything. -/
theorem extentOf_of_forall_prefix
    (every : ∀ stack ∈ collapsed, stem <+: stack.path) :
    startOf collapsed stem = 0 ∧
      (extentOf collapsed stem).finish = (collapsed.map Stack.weight).sum := by
  have noneBelow : startOf collapsed stem = 0 := by
    rw [startOf, weightWhere, List.filter_eq_nil_iff.mpr]
    · rfl
    · intro stack member less
      exact Path.not_lt_of_isPrefix (every stack member) (of_decide_eq_true less)
  refine ⟨noneBelow, ?_⟩
  rw [extentOf, noneBelow, zero_add, widthOf, weightWhere, List.filter_eq_self.mpr]
  intro stack member
  exact decide_eq_true (every stack member)

/-- The ranges of different stems of one length lie side by side. -/
theorem ranges_apart
    (positive : ∀ stack ∈ collapsed, 0 < stack.weight)
    (different : outer ≠ stem)
    (sameLength : outer.length = stem.length) :
    (extentOf collapsed outer).finish ≤ startOf collapsed stem ∨
      (extentOf collapsed stem).finish ≤ startOf collapsed outer := by
  rcases lt_or_gt_of_ne different with below | above
  · exact Or.inl (finish_le_start positive below sameLength)
  · exact Or.inr (finish_le_start positive above sameLength.symm)

/-! ## Callers and roots -/

/-- Of two frames or more all but the innermost are a stem too. -/
theorem IsStem.dropLast
    (isStem : IsStem collapsed stem)
    (inner : 1 < stem.length) :
    IsStem collapsed stem.dropLast := by
  obtain ⟨_, stack, member, starts⟩ := isStem
  refine ⟨?_, stack, member, (List.dropLast_prefix stem).trans starts⟩
  apply List.ne_nil_of_length_pos
  rw [List.length_dropLast]
  omega

/-- Paths below one root have no other stem of a single frame. -/
theorem IsStem.eq_root
    (isStem : IsStem collapsed stem)
    (rooted : ∀ stack ∈ collapsed, [""] <+: stack.path)
    (single : stem.length = 1) :
    stem = [""] := by
  obtain ⟨_, stack, member, starts⟩ := isStem
  have inRoot : stem <+: [""] :=
    List.prefix_of_prefix_length_le starts (rooted stack member) single.le
  exact inRoot.eq_of_length single

end Stack

/-! ## Trees of nested frames -/

namespace Merge

section Weighs

variable {arrivals : List (Arrival Rat)} {target : List (Stack Rat)} {stem : List String}

/-- The frame of a stem covers the range of the stem. -/
theorem Weighs.range_nodeOf
    (weighs : Weighs arrivals target)
    (isStem : Stack.IsStem target stem) :
    (nodeOf arrivals stem).start = some (Stack.startOf target stem) ∧
      (nodeOf arrivals stem).origin = Stack.startOf target stem ∧
      (nodeOf arrivals stem).finish = (Stack.extentOf target stem).finish := by
  have extent := weighs.extent_nodeOf (weighs.block_ne_nil isStem.2)
  have start : (nodeOf arrivals stem).start = some (Stack.startOf target stem) :=
    congrArg Extent.start extent
  refine ⟨start, ?_, congrArg Extent.finish extent⟩
  rw [Node.origin, start, Option.getD_some]

/-- The frames of the stems of rooted paths are nested. -/
theorem Weighs.isNested
    (weighs : Weighs arrivals target)
    (rooted : ∀ stack ∈ target, [""] <+: stack.path)
    {tree : Tree Rat}
    {stems : List (List String)}
    (nodes : tree.nodes = stems.map (nodeOf arrivals))
    (total : tree.total = (target.map Stack.weight).sum)
    (distinct : stems.Nodup)
    (isStem : ∀ stem, stem ∈ stems ↔ Stack.IsStem target stem) :
    tree.IsNested := by
  have positive := weighs.positive
  have range := fun stem member => weighs.range_nodeOf ((isStem stem).mp member)
  constructor
  case started =>
    rw [nodes, List.forall_mem_map]
    intro stem member
    rw [(range stem member).1, (range stem member).2.1]
  case spans =>
    rw [nodes, List.forall_mem_map]
    intro stem member
    obtain ⟨_, origin, finish⟩ := range stem member
    have wide := (Stack.widthOf_pos_iff positive).mpr ((isStem stem).mp member).2
    rw [origin, finish, total]
    exact ⟨Stack.weightWhere_nonneg _ fun stack member => (positive stack member).le,
      lt_add_of_pos_right _ wide,
      Stack.finish_le_sum positive stem⟩
  case apart =>
    rw [nodes, List.pairwise_map]
    refine distinct.imp_of_mem ?_
    intro first second firstMember secondMember different sameDepth
    have firstLength := List.length_pos_iff.mpr ((isStem first).mp firstMember).1
    have secondLength := List.length_pos_iff.mpr ((isStem second).mp secondMember).1
    change first.length - 1 = second.length - 1 at sameDepth
    have sameLength : first.length = second.length := by omega
    rw [(range first firstMember).2.1, (range first firstMember).2.2,
      (range second secondMember).2.1, (range second secondMember).2.2]
    exact Stack.ranges_apart positive different sameLength
  case caller =>
    rw [nodes, List.forall_mem_map]
    intro stem member inner
    change 0 < stem.length - 1 at inner
    have outerMember := (isStem _).mpr (((isStem stem).mp member).dropLast (by omega))
    refine ⟨nodeOf arrivals stem.dropLast, List.mem_map_of_mem outerMember, ?_, ?_, ?_⟩
    · change stem.dropLast.length - 1 + 1 = stem.length - 1
      rw [List.length_dropLast]
      omega
    · rw [(range _ outerMember).2.1, (range stem member).2.1]
      exact Stack.startOf_le_of_isPrefix positive (List.dropLast_prefix stem)
    · rw [(range _ outerMember).2.2, (range stem member).2.2]
      exact Stack.finish_le_of_isPrefix positive (List.dropLast_prefix stem)
  case root =>
    rw [nodes, List.forall_mem_map]
    intro stem member outermost
    change stem.length - 1 = 0 at outermost
    have own := (isStem stem).mp member
    have length := List.length_pos_iff.mpr own.1
    obtain rfl := own.eq_root rooted (by omega)
    rw [(range _ member).2.1, (range _ member).2.2, total]
    exact Stack.extentOf_of_forall_prefix rooted

end Weighs

end Merge

namespace Tree

/-- Resources with positive amounts have a tree of nested frames, which weighs something
if there are any. -/
theorem exists_isNested
    {resources : List (Resource Rat)}
    (positive : ∀ resource ∈ resources, 0 < resource.amount)
    (nonempty : resources ≠ []) :
    ∃ tree : Tree Rat, Tree.ofStacks (Stack.ofResources resources) = .ok tree ∧
      tree.IsNested ∧ 0 < tree.total := by
  obtain ⟨tree, stems, built, nodes, total, distinct, isStem⟩ := exists_nodes_ofResources positive
  have weighs := Merge.weighs_ofResources positive
  have rooted : ∀ stack ∈ resources.map Stack.ofResource, [""] <+: stack.path := by
    rw [List.forall_mem_map]
    intro resource _
    exact List.prefix_append [""] _
  refine ⟨tree, built, weighs.isNested rooted nodes total distinct isStem, ?_⟩
  rw [total]
  apply List.sum_pos
  · rw [List.forall_mem_map]
    exact weighs.positive
  · simpa using nonempty

end Tree
end FlameProfile
