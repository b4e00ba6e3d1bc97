import Mathlib
import FlameProfile.Proofs.FirstSeen
import FlameProfile.Proofs.Tree.Visibility

/-!
# Places and changes of differential frames

A differential tree pairs every path of its two lists with the weight that the
path has in either of them, in whatever order the stacks come and in however many
parts a weight comes. All paths are then different, so a frame keeps the change of
the path that opens it, which is the least one with the stem of the frame. Where
the frame stands is a matter of the target alone.
-/

namespace FlameProfile
namespace Stack

/-- The weight of a path. -/
def weightAt
    (collapsed : List (Stack Rat))
    (path : List String) : Rat :=
  weightWhere (fun other => other = path) collapsed

/-- The paths of two lists of stacks. -/
def allPaths (baseline target : List (Stack Rat)) : Finset (List String) :=
  ((target ++ baseline).map Stack.path).toFinset

theorem mem_allPaths
    {baseline target : List (Stack Rat)}
    {path : List String} :
    path ∈ allPaths baseline target ↔
      (∃ stack ∈ target, stack.path = path) ∨ ∃ stack ∈ baseline, stack.path = path := by
  simp [allPaths]

/-- A kind of path weighs what its paths weigh. -/
theorem sum_weightAt
    (holds : List String -> Prop)
    [DecidablePred holds]
    {paths : Finset (List String)}
    {collapsed : List (Stack Rat)}
    (among : ∀ stack ∈ collapsed, stack.path ∈ paths) :
    ∑ path ∈ paths with holds path, weightAt collapsed path =
      weightWhere (fun path => holds path) collapsed := by
  induction collapsed with
  | nil => simp [weightAt]
  | cons stack rest inductionHypothesis =>
      obtain ⟨isAmong, restAmong⟩ := List.forall_mem_cons.mp among
      simp only [weightAt, weightWhere_cons, Finset.sum_add_distrib, decide_eq_true_eq]
      simp only [weightAt] at inductionHypothesis
      rw [inductionHypothesis restAmong, Finset.sum_ite_eq]
      simp [isAmong]

end Stack

/-! ## Paired weights -/

namespace PairedStack

variable {baseline target : List (Stack Rat)}

/-- The table of paired stacks. -/
def table (baseline target : List (Stack Rat)) : FirstSeen (List String) (PairedStack Rat) :=
  baseline.foldl addBaseline (target.foldl addTarget [])

theorem nodup_keys_table (baseline target : List (Stack Rat)) :
    (FirstSeen.keys (table baseline target)).Nodup :=
  FirstSeen.nodup_keys_foldl _ _ _ baseline (FirstSeen.nodup_keys_foldl _ _ _ target List.nodup_nil)

/-- The table gives every path the weight that it has in the target. -/
theorem weight_find?_table
    (baseline target : List (Stack Rat))
    (path : List String) :
    (FirstSeen.find? path (table baseline target)).elim 0 (fun paired => paired.target.weight) =
      Stack.weightAt target path :=
  calc (FirstSeen.find? path (table baseline target)).elim 0 (fun paired => paired.target.weight)
    _ = (FirstSeen.find? path (target.foldl addTarget [])).elim 0
          (fun paired => paired.target.weight) :=
      FirstSeen.measure_foldl_unchanged _ _ _ _ (by intros; rfl) (by intros; rfl) baseline
    _ = 0 + Stack.weightAt target path :=
      FirstSeen.measure_foldl _ _ _ _ Stack.weight (by intros; rfl) (by intros; rfl) target
    _ = Stack.weightAt target path := zero_add _

/-- The table gives every path the weight that it has in the baseline. -/
theorem baselineWeight_find?_table
    (baseline target : List (Stack Rat))
    (path : List String) :
    (FirstSeen.find? path (table baseline target)).elim 0 baselineWeight =
      Stack.weightAt baseline path :=
  calc (FirstSeen.find? path (table baseline target)).elim 0 baselineWeight
    _ = (FirstSeen.find? path (target.foldl addTarget [])).elim 0 baselineWeight +
          Stack.weightAt baseline path :=
      FirstSeen.measure_foldl _ _ _ _ Stack.weight (by intros; rfl) (by intros; rfl) baseline
    _ = 0 + Stack.weightAt baseline path :=
      congrArg (· + _) (FirstSeen.measure_foldl_unchanged _ _ _ _ (by intros; rfl) (by intros; rfl)
        target)
    _ = Stack.weightAt baseline path := zero_add _

/-- A paired stack has a path of its own, and the weights that the path has. -/
theorem of_mem_table
    {path : List String}
    {paired : PairedStack Rat}
    (member : (path, paired) ∈ table baseline target) :
    paired.target.path = path ∧
      paired.target.weight = Stack.weightAt target path ∧
      paired.baselineWeight = Stack.weightAt baseline path := by
  have found := (FirstSeen.find?_eq_some_iff (nodup_keys_table baseline target)).mpr member
  have weight := weight_find?_table baseline target path
  have baselineWeight := baselineWeight_find?_table baseline target path
  rw [found] at weight baselineWeight
  exact ⟨(Stack.gathers_addBaseline baseline target).path _ member, weight, baselineWeight⟩

end PairedStack

/-! ## Frames of differential trees -/

namespace Merge

variable {baseline target : List (Stack Rat)} {stem : List String}

/-- Every path arrives once. -/
theorem nodup_path_arrivalsOfPairs (baseline target : List (Stack Rat)) :
    ((arrivalsOfPairs (PairedStack.ofStacks baseline target)).map
      fun arrival => arrival.1.path).Nodup := by
  have keys : (PairedStack.table baseline target).map (fun entry => entry.2.target.path) =
      FirstSeen.keys (PairedStack.table baseline target) :=
    List.map_congr_left fun entry member => (PairedStack.of_mem_table member).1
  have perm := (ofStacks_perm baseline target).map fun paired => paired.target.path
  rw [List.map_map] at perm
  rw [arrivalsOfPairs, List.map_map]
  exact (perm.trans (keys ▸ List.Perm.refl _)).nodup_iff.mpr
    (PairedStack.nodup_keys_table baseline target)

/-- What arrives brings the weight of its path, and its change. -/
theorem of_mem_arrivalsOfPairs
    {arrival : Arrival Rat}
    (member : arrival ∈ arrivalsOfPairs (PairedStack.ofStacks baseline target)) :
    arrival.1.weight = Stack.weightAt target arrival.1.path ∧
      arrival.2 = some
        (Stack.weightAt target arrival.1.path - Stack.weightAt baseline arrival.1.path) := by
  obtain ⟨paired, pairedMember, rfl⟩ := List.mem_map.mp member
  have inTable := (ofStacks_perm baseline target).mem_iff.mp pairedMember
  obtain ⟨⟨path, _⟩, entryMember, rfl⟩ := List.mem_map.mp inTable
  obtain ⟨isPath, weight, baselineWeight⟩ := PairedStack.of_mem_table entryMember
  rw [isPath, PairedStack.delta, weight, baselineWeight]
  exact ⟨rfl, rfl⟩

theorem arrives_iff
    (path : List String) :
    (∃ arrival ∈ arrivalsOfPairs (PairedStack.ofStacks baseline target),
      arrival.1.path = path) ↔ path ∈ Stack.allPaths baseline target := by
  rw [exists_arrival_ofStacks_iff fun other => other = path, Stack.mem_allPaths]

/-- Where no path arrives twice, nothing adds to a frame: it was opened by its own
stem, or the stem never arrives. -/
theorem filter_later_eq_nil_of_nodup
    {opener : Arrival Rat}
    {later : List (Arrival Rat)}
    (starts : stem <+: opener.1.path)
    (notBelow : ∀ arrival ∈ later, ¬ arrival.1.path < opener.1.path)
    (distinct : ((opener :: later).map fun arrival => arrival.1.path).Nodup) :
    (later.filter fun arrival => arrival.1.path = stem) = [] := by
  rw [List.filter_eq_nil_iff]
  intro arrival inLater isStem
  rw [decide_eq_true_eq] at isStem
  have same : opener.1.path = arrival.1.path := by
    apply le_antisymm (not_lt.mp (notBelow arrival inLater))
    rw [isStem]
    exact not_lt.mp (Path.not_lt_of_isPrefix starts)
  rw [List.map_cons, same] at distinct
  exact (List.nodup_cons.mp distinct).1 (List.mem_map_of_mem inLater)

/-- Where no path arrives twice, a frame keeps the change of the path that opens
it, and this path is the least one with the stem. -/
theorem exists_opener
    {arrivals : List (Arrival Rat)}
    (sorted : Sorted arrivals)
    (distinct : (arrivals.map fun arrival => arrival.1.path).Nodup)
    (begun : block stem arrivals ≠ []) :
    ∃ opener ∈ arrivals, stem <+: opener.1.path ∧
      (∀ arrival ∈ arrivals, stem <+: arrival.1.path → ¬ arrival.1.path < opener.1.path) ∧
      (nodeOf arrivals stem).delta = opener.2 := by
  obtain ⟨opener, later, opened⟩ := List.exists_cons_of_ne_nil begun
  have isFirst : opener ∈ block stem arrivals := opened ▸ List.mem_cons_self
  obtain ⟨member, starts⟩ := mem_block.mp isFirst
  have blockSorted : Sorted (opener :: later) := opened ▸ sorted.filter _
  have blockDistinct : ((opener :: later).map fun arrival => arrival.1.path).Nodup :=
    opened ▸ distinct.sublist (List.filter_sublist.map _)
  have notBelow := (List.pairwise_cons.mp blockSorted).1
  refine ⟨opener, member, starts, ?_, ?_⟩
  · intro arrival arrivalMember arrivalStarts
    have inBlock := mem_block.mpr ⟨arrivalMember, arrivalStarts⟩
    rw [opened] at inBlock
    rcases List.mem_cons.mp inBlock with rfl | inLater
    · exact lt_irrefl _
    · exact notBelow arrival inLater
  · rw [nodeOf, close, frameOf_of_block_eq_cons opened,
      filter_later_eq_nil_of_nodup starts notBelow blockDistinct]
    rfl

end Merge

namespace Stack

/-- A node stands where the frame of a stem ends, sums being over the paths of both
lists. -/
structure StandsAt
    (baseline target : List (Stack Rat))
    (stem : List String)
    (node : Node Rat) : Prop where
  label : stem.getLast? = some node.label
  depth : node.depth = stem.length - 1
  finish : node.finish =
    ∑ path ∈ allPaths baseline target with path < stem, weightAt target path +
      ∑ path ∈ allPaths baseline target with stem <+: path, weightAt target path

/-- A node is the frame of a stem: it starts behind the paths below the stem, and its
change is that of the least path with the stem. -/
structure IsDifferentialFrame
    (baseline target : List (Stack Rat))
    (stem : List String)
    (node : Node Rat) : Prop extends StandsAt baseline target stem node where
  start : node.start =
    some (∑ path ∈ allPaths baseline target with path < stem, weightAt target path)
  delta : ∃ opener, IsLeast {path | path ∈ allPaths baseline target ∧ stem <+: path} opener ∧
    node.delta = some (weightAt target opener - weightAt baseline opener)

theorem StandsAt.of_samePlace
    {baseline target : List (Stack Rat)}
    {stem : List String}
    {node other : Node Rat}
    (stands : StandsAt baseline target stem node)
    (same : Node.SamePlace other node) :
    StandsAt baseline target stem other where
  label := stands.label.trans (congrArg some same.1.symm)
  depth := same.2.1.trans stands.depth
  finish := same.2.2.trans stands.finish

theorem sum_weightAt_target
    (holds : List String -> Prop)
    [DecidablePred holds]
    (baseline target : List (Stack Rat)) :
    ∑ path ∈ allPaths baseline target with holds path, weightAt target path =
      weightWhere (fun path => holds path) target :=
  sum_weightAt holds fun stack member => mem_allPaths.mpr (.inl ⟨stack, member, rfl⟩)

end Stack

namespace Merge

/-- The merged frame of a stem is the frame that the two lists say. -/
theorem isDifferentialFrame_nodeOf
    (nonempty : stem ≠ [])
    (begun : block stem (arrivalsOfPairs (PairedStack.ofStacks baseline target)) ≠ []) :
    Stack.IsDifferentialFrame baseline target stem
      (nodeOf (arrivalsOfPairs (PairedStack.ofStacks baseline target)) stem) := by
  have sorted := sorted_arrivalsOfPairs baseline target
  have extent : (nodeOf (arrivalsOfPairs (PairedStack.ofStacks baseline target)) stem).extent =
      Stack.extentOf target stem := by
    rw [extent_nodeOf sorted begun, Stack.extentOf, Stack.extentOf, Stack.startOf, Stack.startOf,
      Stack.widthOf, Stack.widthOf, weightWhere_arrivalsOfPairs, weightWhere_arrivalsOfPairs]
  have below := Stack.sum_weightAt_target (fun path => path < stem) baseline target
  have within := Stack.sum_weightAt_target (fun path => stem <+: path) baseline target
  constructor
  case toStandsAt =>
    refine ⟨?_, congrArg Extent.depth extent, ?_⟩
    · have label : (nodeOf (arrivalsOfPairs (PairedStack.ofStacks baseline target)) stem).label =
          stem.getLast?.getD "" := congrArg Extent.label extent
      rw [label, List.getLast?_eq_some_getLast nonempty]
      rfl
    · rw [below, within]
      exact congrArg Extent.finish extent
  case start =>
    rw [below]
    exact congrArg Extent.start extent
  case delta =>
    obtain ⟨opener, member, starts, least, change⟩ :=
      exists_opener sorted (nodup_path_arrivalsOfPairs baseline target) begun
    refine ⟨opener.1.path, ⟨⟨(arrives_iff _).mp ⟨opener, member, rfl⟩, starts⟩, ?_⟩, ?_⟩
    · rintro path ⟨isPath, pathStarts⟩
      obtain ⟨arrival, arrivalMember, rfl⟩ := (arrives_iff path).mpr isPath
      exact not_lt.mp (least arrival arrivalMember pathStarts)
    · rw [change, (of_mem_arrivalsOfPairs member).2]

theorem begun_iff :
    block stem (arrivalsOfPairs (PairedStack.ofStacks baseline target)) ≠ [] ↔
      ∃ path ∈ Stack.allPaths baseline target, stem <+: path := by
  rw [block_ne_nil_iff]
  simp only [← arrives_iff]
  constructor
  · rintro ⟨arrival, member, starts⟩
    exact ⟨arrival.1.path, ⟨arrival, member, rfl⟩, starts⟩
  · rintro ⟨_, ⟨arrival, member, rfl⟩, starts⟩
    exact ⟨arrival, member, starts⟩

end Merge

namespace Tree

/-- Every node of a differential tree is the frame of a stem, every stem has a node
at its place, and the whole tree weighs what the target weighs. -/
theorem nodes_difference (baseline target : List (Stack Rat)) :
    ∃ tree : Tree Rat, difference baseline target = .ok tree ∧
      (∀ node ∈ tree.nodes, ∃ stem, stem ≠ [] ∧
        (∃ path ∈ Stack.allPaths baseline target, stem <+: path) ∧
        Stack.IsDifferentialFrame baseline target stem node) ∧
      (∀ stem, stem ≠ [] → (∃ path ∈ Stack.allPaths baseline target, stem <+: path) →
        ∃ node ∈ tree.nodes, Stack.StandsAt baseline target stem node) ∧
      tree.total = ∑ path ∈ Stack.allPaths baseline target, Stack.weightAt target path := by
  obtain ⟨merge, stems, merged, nodes, total, _, complete⟩ :=
    Merge.exists_pushAll (Merge.sorted_arrivalsOfPairs baseline target)
  have isStem : ∀ stem, stem ∈ stems ↔
      stem ≠ [] ∧ ∃ path ∈ Stack.allPaths baseline target, stem <+: path := by
    intro stem
    rw [complete, ← Merge.block_ne_nil_iff, Merge.begun_iff]
  refine ⟨merge.finish, ?_, ?_, ?_, ?_⟩
  · rw [difference, ← Merge.arrivalsOfPairs, merged]
    rfl
  · intro node member
    rw [nodes] at member
    obtain ⟨stem, stemMember, rfl⟩ := List.mem_map.mp (Node.mem_of_mem_insertAll member)
    obtain ⟨nonempty, begun⟩ := (isStem stem).mp stemMember
    exact ⟨stem, nonempty, begun,
      Merge.isDifferentialFrame_nodeOf nonempty (Merge.begun_iff.mpr begun)⟩
  · intro stem nonempty begun
    have stemMember := (isStem stem).mpr ⟨nonempty, begun⟩
    have placed : Merge.nodeOf (Merge.arrivalsOfPairs (PairedStack.ofStacks baseline target))
        stem ∈ stems.map (Merge.nodeOf _) := List.mem_map_of_mem stemMember
    obtain ⟨node, member, same⟩ := Node.exists_samePlace_insertAll placed
    rw [← nodes] at member
    exact ⟨node, member, (Merge.isDifferentialFrame_nodeOf nonempty
      (Merge.begun_iff.mpr begun)).toStandsAt.of_samePlace same⟩
  · have whole := Stack.sum_weightAt_target (fun _ => True) baseline target
    rw [Finset.filter_true] at whole
    rw [total, whole, ← Merge.weightWhere_arrivalsOfPairs _ baseline, ← Merge.offsetAfter_filter]
    simp

end Tree
end FlameProfile
