import Mathlib
import FlameProfile.Proofs.Tree.Visibility
import FlameProfile.Profile

/-!
# Weights by label and depth

Where every stack weighs something, a tree keeps the frame of every stem, and no
other. The frames of one label at one depth belong to different callers, and a path
goes through at most one of them: through the frame of its own beginning. So their
widths add up to the weight of the paths that have the label at the depth.
-/

namespace FlameProfile
namespace Stack

/-! ## Stems of a label -/

/-- A path goes through the frame of one stem of each length at most: that of its own
beginning. -/
theorem prefix_iff_eq_take_succ
    {stem path : List String}
    {depth : Nat}
    (length : stem.length = depth + 1) :
    stem <+: path ↔ stem = path.take (depth + 1) := by
  rw [List.prefix_iff_eq_take, length]

/-- The beginning of a path ends with the label that the path has there. -/
theorem take_succ_iff
    (path : List String)
    (label : String)
    (depth : Nat) :
    (path.take (depth + 1)).getLast? = some label ∧ (path.take (depth + 1)).length = depth + 1 ↔
      path[depth]? = some label := by
  by_cases inside : depth < path.length
  · have length : (path.take (depth + 1)).length = depth + 1 := by
      rw [List.length_take]
      omega
    rw [and_iff_left length, List.getLast?_eq_getElem?, length, Nat.add_sub_cancel,
      List.getElem?_take_of_lt (Nat.lt_succ_self depth)]
  · rw [List.getElem?_eq_none (not_lt.mp inside), List.length_take]
    constructor
    · rintro ⟨_, length⟩
      omega
    · rintro ⟨⟩

/-- Where a path has a label, a stem ends with it. -/
theorem isStem_take_succ
    {target : List (Stack Rat)}
    {stack : Stack Rat}
    {label : String}
    {depth : Nat}
    (member : stack ∈ target)
    (has : stack.path[depth]? = some label) :
    IsStem target (stack.path.take (depth + 1)) := by
  have length := ((take_succ_iff stack.path label depth).mpr has).2
  exact ⟨List.ne_nil_of_length_eq_add_one length, stack, member, List.take_prefix _ _⟩

/-- The stems of one label and one length weigh together what the paths weigh that
have the label there. -/
theorem sum_widthOf
    {stems : Finset (List String)}
    {collapsed : List (Stack Rat)}
    (label : String)
    (depth : Nat)
    (complete : ∀ stack ∈ collapsed, stack.path[depth]? = some label →
      stack.path.take (depth + 1) ∈ stems) :
    ∑ stem ∈ stems with stem.getLast? = some label ∧ stem.length = depth + 1,
        widthOf collapsed stem =
      weightWhere (fun path => path[depth]? = some label) collapsed := by
  induction collapsed with
  | nil => simp [widthOf]
  | cons stack rest inductionHypothesis =>
      obtain ⟨isComplete, restComplete⟩ := List.forall_mem_cons.mp complete
      have own : ∀ stem ∈ stems.filter fun stem =>
          stem.getLast? = some label ∧ stem.length = depth + 1,
          widthOf (stack :: rest) stem =
            (if stem = stack.path.take (depth + 1) then stack.weight else 0) +
              widthOf rest stem := by
        intro stem member
        have length := (Finset.mem_filter.mp member).2.2
        simp only [widthOf, weightWhere_cons, decide_eq_true_eq, prefix_iff_eq_take_succ length]
      have through : stack.path.take (depth + 1) ∈ stems.filter (fun stem =>
          stem.getLast? = some label ∧ stem.length = depth + 1) ↔
            stack.path[depth]? = some label := by
        rw [Finset.mem_filter, take_succ_iff]
        exact and_iff_right_of_imp isComplete
      rw [Finset.sum_congr rfl own, Finset.sum_add_distrib, inductionHypothesis restComplete,
        Finset.sum_ite_eq', weightWhere_cons]
      simp only [through, decide_eq_true_eq]

end Stack

/-! ## Trees that add up -/

namespace Tree

/-- The frames of a tree weigh what stacks weigh, for every label at every depth. -/
structure AddsUp
    (tree : Tree Rat)
    (collapsed : List (Stack Rat)) : Prop where
  total : tree.total = (collapsed.map Stack.weight).sum
  exists_iff : ∀ label depth, (∃ node ∈ tree.nodes, (node.label, node.depth) = (label, depth)) ↔
    ∃ stack ∈ collapsed, stack.path[depth]? = some label
  width : ∀ label depth,
    ((tree.nodes.filter fun node => (node.label, node.depth) = (label, depth)).map
      Node.width).sum = Stack.weightWhere (fun path => path[depth]? = some label) collapsed

end Tree

namespace Merge

section Weighs

variable {arrivals : List (Arrival Rat)} {target : List (Stack Rat)} {stem other : List String}

/-- Where only stems of the target arrive, no frame takes the place of another. -/
theorem Weighs.exists_nodes
    (weighs : Weighs arrivals target)
    (arrived : ∀ stem, (∃ arrival ∈ arrivals, stem <+: arrival.1.path) ↔
      ∃ stack ∈ target, stem <+: stack.path) :
    ∃ (merge : Merge Rat) (stems : List (List String)),
      Merge.empty.pushAll arrivals = .ok merge ∧
      merge.finish.nodes = stems.map (nodeOf arrivals) ∧
      merge.finish.total = (target.map Stack.weight).sum ∧
      stems.Nodup ∧ ∀ stem, stem ∈ stems ↔ Stack.IsStem target stem := by
  obtain ⟨merge, stems, merged, nodes, total, closes, complete⟩ :=
    Merge.exists_pushAll weighs.sorted
  have isStem : ∀ stem, stem ∈ stems ↔ Stack.IsStem target stem := by
    intro stem
    rw [complete, arrived, Stack.IsStem]
  have begun : ∀ stem ∈ stems, block stem arrivals ≠ [] := by
    intro stem member
    exact weighs.block_ne_nil ((isStem stem).mp member).2
  have distinct : Node.PlacesDistinct ([] ++ stems.map (nodeOf arrivals)) := by
    refine List.pairwise_map.mpr (closes.imp_of_mem ?_)
    intro first second firstMember secondMember before same
    obtain ⟨nonempty, stack, stackMember, starts⟩ := (isStem second).mp secondMember
    have covers := (weighs.samePlace_iff ((isStem first).mp firstMember).1
      (begun first firstMember) nonempty (begun second secondMember) before).mp same
    exact covers.weightless stack stackMember starts
  refine ⟨merge, stems, merged, ?_, ?_, ?_, isStem⟩
  · rw [nodes, Node.insertAll_of_placesDistinct distinct, List.nil_append]
  · have whole := offsetAfter_filter (fun _ => true) arrivals
    rw [weighs.weight, List.filter_true] at whole
    rw [total, whole, Stack.weightWhere, List.filter_true]
  · apply closes.imp
    rintro first _ before rfl
    exact Path.not_closesBefore_self first before

/-- The frame of a stem stands at the last label of the stem and at its length. -/
theorem placed_nodeOf_iff
    (nonempty : stem ≠ [])
    (label : String)
    (depth : Nat) :
    ((nodeOf arrivals stem).label, (nodeOf arrivals stem).depth) = (label, depth) ↔
      stem.getLast? = some label ∧ stem.length = depth + 1 := by
  have length := List.length_pos_iff.mpr nonempty
  have ownLabel : (nodeOf arrivals stem).label = stem.getLast nonempty := by
    rw [nodeOf, close, label_frameOf, List.getLast?_eq_some_getLast nonempty]
    rfl
  have ownDepth : (nodeOf arrivals stem).depth = stem.length - 1 := rfl
  rw [ownLabel, ownDepth, Prod.mk.injEq, List.getLast?_eq_some_getLast nonempty,
    Option.some.injEq]
  apply and_congr_right
  intro _
  omega

section Stems

variable {stems : List (List String)} (isStem : ∀ stem, stem ∈ stems ↔ Stack.IsStem target stem)
  (label : String) (depth : Nat)

include isStem

/-- The frames of the stems stand where the paths have labels. -/
theorem exists_placed_iff :
    (∃ node ∈ stems.map (nodeOf arrivals), (node.label, node.depth) = (label, depth)) ↔
      ∃ stack ∈ target, stack.path[depth]? = some label := by
  constructor
  · rintro ⟨_, nodeMember, placed⟩
    obtain ⟨stem, stemMember, rfl⟩ := List.mem_map.mp nodeMember
    obtain ⟨nonempty, stack, member, starts⟩ := (isStem stem).mp stemMember
    rw [placed_nodeOf_iff nonempty] at placed
    rw [Stack.prefix_iff_eq_take_succ placed.2] at starts
    rw [starts, Stack.take_succ_iff] at placed
    exact ⟨stack, member, placed⟩
  · rintro ⟨stack, member, has⟩
    have own := Stack.isStem_take_succ member has
    refine ⟨_, List.mem_map_of_mem ((isStem _).mpr own), ?_⟩
    rw [placed_nodeOf_iff own.1, Stack.take_succ_iff]
    exact has

/-- The frames of one label at one depth are as wide as the paths weigh that have the
label there. -/
theorem Weighs.sum_width
    (weighs : Weighs arrivals target)
    (distinct : stems.Nodup) :
    (((stems.map (nodeOf arrivals)).filter fun node =>
      (node.label, node.depth) = (label, depth)).map Node.width).sum =
        Stack.weightWhere (fun path => path[depth]? = some label) target := by
  have placed : (stems.filter ((fun node : Node Rat =>
      decide ((node.label, node.depth) = (label, depth))) ∘ nodeOf arrivals)) =
        stems.filter fun stem => stem.getLast? = some label ∧ stem.length = depth + 1 := by
    apply List.filter_congr
    intro stem member
    exact decide_eq_decide.mpr (placed_nodeOf_iff ((isStem stem).mp member).1 label depth)
  have widths : ∀ stem ∈ stems.filter (fun stem =>
      decide (stem.getLast? = some label ∧ stem.length = depth + 1)),
      (Node.width ∘ nodeOf arrivals) stem = Stack.widthOf target stem := by
    intro stem member
    have own := (isStem stem).mp (List.mem_of_mem_filter member)
    exact weighs.width_nodeOf (weighs.block_ne_nil own.2)
  rw [List.filter_map, List.map_map, placed, List.map_congr_left widths,
    ← List.sum_toFinset _ (distinct.filter _), List.toFinset_filter]
  simp only [decide_eq_true_eq]
  apply Stack.sum_widthOf
  intro stack member has
  exact List.mem_toFinset.mpr ((isStem _).mpr (Stack.isStem_take_succ member has))

end Stems

/-- A tree with the frames of all stems of the target adds up. -/
theorem Weighs.addsUp
    (weighs : Weighs arrivals target)
    {tree : Tree Rat}
    {stems : List (List String)}
    (nodes : tree.nodes = stems.map (nodeOf arrivals))
    (total : tree.total = (target.map Stack.weight).sum)
    (distinct : stems.Nodup)
    (isStem : ∀ stem, stem ∈ stems ↔ Stack.IsStem target stem) :
    tree.AddsUp target := by
  refine ⟨total, ?_, ?_⟩
  · rw [nodes]
    exact exists_placed_iff isStem
  · rw [nodes]
    exact fun label depth => weighs.sum_width isStem label depth distinct

end Weighs

end Merge

/-! ## Trees of resources -/

section Resources

variable {resources : List (Resource Rat)}

/-- What arrives for resources with positive amounts weighs what they amount to. -/
theorem Merge.weighs_ofResources
    (positive : ∀ resource ∈ resources, 0 < resource.amount) :
    Merge.Weighs (Merge.arrivalsOf (Stack.sortByPath (Stack.ofResources resources)))
      (resources.map Stack.ofResource) := by
  apply Merge.weighs_coalesce (Sorting.sort_perm _ _)
  intro stack member
  obtain ⟨resource, resourceMember, rfl⟩ := List.mem_map.mp member
  exact positive resource resourceMember

theorem Merge.exists_arrival_ofResources_iff
    (resources : List (Resource Rat))
    (stem : List String) :
    (∃ arrival ∈ Merge.arrivalsOf (Stack.sortByPath (Stack.ofResources resources)),
      stem <+: arrival.1.path) ↔ ∃ stack ∈ resources.map Stack.ofResource, stem <+: stack.path :=
  Merge.exists_arrival_coalesce_iff (Sorting.sort_perm _ _) fun path => stem <+: path

namespace Tree

/-- The tree of resources with positive amounts has one frame for each stem of their
paths, and no other frame. -/
theorem exists_nodes_ofResources
    (positive : ∀ resource ∈ resources, 0 < resource.amount) :
    ∃ (tree : Tree Rat) (stems : List (List String)),
      Tree.ofStacks (Stack.ofResources resources) = .ok tree ∧
      tree.nodes = stems.map
        (Merge.nodeOf (Merge.arrivalsOf (Stack.sortByPath (Stack.ofResources resources)))) ∧
      tree.total = ((resources.map Stack.ofResource).map Stack.weight).sum ∧
      stems.Nodup ∧ ∀ stem, stem ∈ stems ↔ Stack.IsStem (resources.map Stack.ofResource) stem := by
  have weighs := Merge.weighs_ofResources positive
  obtain ⟨merge, stems, merged, nodes, total, distinct, isStem⟩ :=
    weighs.exists_nodes (Merge.exists_arrival_ofResources_iff resources)
  refine ⟨merge.finish, stems, ?_, nodes, total, distinct, isStem⟩
  rw [ofStacks, ← Merge.arrivalsOf, merged]
  rfl

/-- The tree of resources with positive amounts adds up. -/
theorem exists_ofResources
    (positive : ∀ resource ∈ resources, 0 < resource.amount) :
    ∃ tree : Tree Rat, Tree.ofStacks (Stack.ofResources resources) = .ok tree ∧
      tree.AddsUp (resources.map Stack.ofResource) := by
  obtain ⟨tree, stems, built, nodes, total, distinct, isStem⟩ := exists_nodes_ofResources positive
  exact ⟨tree, built,
    (Merge.weighs_ofResources positive).addsUp nodes total distinct isStem⟩

end Tree

end Resources
end FlameProfile
