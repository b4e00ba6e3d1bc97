import Mathlib
import FlameProfile.Proofs.Tree.Gathering
import FlameProfile.Proofs.Tree.PrefixTree

/-!
# What a differential tree shows of its target

The visible frames of a differential tree are frames of the target, at the very
ranges where the tree of the target alone has them. A path of the baseline alone
moves none of them, but it can hide one: a frame without width that is closed
later at the same offset, with the same label and at the same depth, takes its
place in the arena. `Stack.Hides` says which stems do this, and the differential
tree shows every frame of its target exactly if no stem does.
-/

namespace FlameProfile

/-- The extents of the frames that have a width. -/
def Tree.visible (tree : Tree Rat) : List (Extent Rat) :=
  (tree.nodes.filter fun node => 0 < node.width).map Node.extent

namespace Stack

/-- A stem without weight whose frame stands where that of a lower stem ends. -/
structure Covers
    (target : List (Stack Rat))
    (cover stem : List String) : Prop where
  length : cover.length = stem.length
  last : cover.getLast? = stem.getLast?
  above : stem < cover
  weightless : ∀ stack ∈ target, ¬ cover <+: stack.path
  adjacent : ∀ stack ∈ target, stack.path < cover → stack.path < stem ∨ stem <+: stack.path

/-- A stem of the baseline alone that covers a stem of the target. -/
structure Hides
    (baseline target : List (Stack Rat))
    (cover stem : List String) : Prop extends Covers target cover stem where
  hidden : IsStem target stem
  baseline : IsStem baseline cover

end Stack

namespace Merge

/-! ## Frames of weighed arrivals -/

/-- Sorted arrivals whose paths weigh what they weigh in a target. -/
structure Weighs
    (arrivals : List (Arrival Rat))
    (target : List (Stack Rat)) : Prop where
  sorted : Sorted arrivals
  positive : ∀ stack ∈ target, 0 < stack.weight
  weight : ∀ holds, Stack.weightWhere holds (arrivals.map Prod.fst) =
    Stack.weightWhere holds target

section Weighs

variable {arrivals : List (Arrival Rat)} {target : List (Stack Rat)} {stem other : List String}

/-- The frame of a stem has the extent that the stem has in the target. -/
theorem Weighs.extent_nodeOf
    (weighs : Weighs arrivals target)
    (begun : block stem arrivals ≠ []) :
    (nodeOf arrivals stem).extent = Stack.extentOf target stem := by
  rw [Merge.extent_nodeOf weighs.sorted begun, Stack.extentOf, Stack.extentOf, Stack.startOf,
    Stack.startOf, Stack.widthOf, Stack.widthOf, weighs.weight, weighs.weight]

theorem Weighs.width_nodeOf
    (weighs : Weighs arrivals target)
    (begun : block stem arrivals ≠ []) :
    (nodeOf arrivals stem).width = Stack.widthOf target stem := by
  have extent := weighs.extent_nodeOf begun
  have start : (nodeOf arrivals stem).start = some (Stack.startOf target stem) :=
    congrArg Extent.start extent
  have finish : (nodeOf arrivals stem).finish =
      Stack.startOf target stem + Stack.widthOf target stem :=
    congrArg Extent.finish extent
  rw [Node.width, start, finish]
  exact add_sub_cancel_left _ _

/-- A stem that weighs something in the target has arrived. -/
theorem Weighs.block_ne_nil
    (weighs : Weighs arrivals target)
    (begins : ∃ stack ∈ target, stem <+: stack.path) :
    block stem arrivals ≠ [] := by
  intro empty
  have heavy := (Stack.widthOf_pos_iff weighs.positive).mpr begins
  rw [Stack.widthOf, ← weighs.weight, ← offsetAfter_filter] at heavy
  change 0 < offsetAfter (block stem arrivals) at heavy
  rw [empty] at heavy
  exact lt_irrefl 0 heavy

/-- A frame that is closed later stands at the place of an earlier one exactly
if it covers it. -/
theorem Weighs.samePlace_iff
    (weighs : Weighs arrivals target)
    (nonempty : stem ≠ [])
    (begun : block stem arrivals ≠ [])
    (otherNonempty : other ≠ [])
    (otherBegun : block other arrivals ≠ [])
    (closes : Path.ClosesBefore stem other) :
    Node.SamePlace (nodeOf arrivals stem) (nodeOf arrivals other) ↔
      Stack.Covers target other stem := by
  have positive := weighs.positive
  have stemLength := List.length_pos_iff.mpr nonempty
  have otherLength := List.length_pos_iff.mpr otherNonempty
  have finish : (nodeOf arrivals stem).finish = (Stack.extentOf target stem).finish :=
    congrArg Extent.finish (weighs.extent_nodeOf begun)
  have otherFinish : (nodeOf arrivals other).finish =
      Stack.startOf target other + Stack.widthOf target other :=
    congrArg Extent.finish (weighs.extent_nodeOf otherBegun)
  rw [Node.SamePlace, finish, otherFinish]
  constructor
  · rintro ⟨sameLabel, sameDepth, sameFinish⟩
    change stem.length - 1 = other.length - 1 at sameDepth
    have sameLength : stem.length = other.length := by omega
    have below := closes.lt_of_length_eq sameLength
    have ordered := Stack.finish_le_start positive below sameLength
    have wide : 0 ≤ Stack.widthOf target other :=
      Stack.weightWhere_nonneg _ fun stack member => (positive stack member).le
    rw [sameFinish] at ordered
    have widthless : Stack.widthOf target other = 0 := by linarith
    constructor
    case length => exact sameLength.symm
    case last =>
      rw [nodeOf, nodeOf, close, close, label_frameOf, label_frameOf] at sameLabel
      rw [List.getLast?_eq_some_getLast nonempty, List.getLast?_eq_some_getLast otherNonempty]
        at sameLabel ⊢
      exact congrArg some sameLabel.symm
    case above => exact below
    case weightless => exact (Stack.widthOf_eq_zero_iff positive).mp widthless
    case adjacent =>
      rw [widthless, add_zero] at sameFinish
      exact (Stack.finish_eq_start_iff positive below sameLength).mp sameFinish
  · intro covers
    have widthless : Stack.widthOf target other = 0 :=
      (Stack.widthOf_eq_zero_iff positive).mpr covers.weightless
    refine ⟨?_, ?_, ?_⟩
    · rw [nodeOf, nodeOf, close, close, label_frameOf, label_frameOf, covers.last]
    · change stem.length - 1 = other.length - 1
      rw [covers.length]
    · rw [widthless, add_zero]
      exact (Stack.finish_eq_start_iff positive covers.above covers.length.symm).mpr covers.adjacent

/-- The visible frames that remain are those of stems with weight that no stem
covers. -/
theorem Weighs.mem_visible_iff
    (weighs : Weighs arrivals target)
    {stems : List (List String)}
    (closes : stems.Pairwise Path.ClosesBefore)
    (proper : ∀ stem ∈ stems, stem ≠ [] ∧ block stem arrivals ≠ [])
    (node : Node Rat) :
    node ∈ Node.insertAll [] (stems.map (nodeOf arrivals)) ∧ 0 < node.width ↔
      ∃ stem ∈ stems, (∃ stack ∈ target, stem <+: stack.path) ∧
        (∀ other ∈ stems, ¬ Stack.Covers target other stem) ∧ node = nodeOf arrivals stem := by
  rw [Node.mem_insertAll_iff]
  constructor
  · rintro ⟨⟨front, back, split, remains⟩, wide⟩
    obtain ⟨earlier, rest, rfl, _, mapped⟩ := List.map_eq_append_iff.mp split
    obtain ⟨stem, later, rfl, rfl, rfl⟩ := List.map_eq_cons_iff.mp mapped
    obtain ⟨_, restCloses, across⟩ := List.pairwise_append.mp closes
    have member : stem ∈ earlier ++ stem :: later := by simp
    obtain ⟨nonempty, begun⟩ := proper stem member
    rw [weighs.width_nodeOf begun, Stack.widthOf_pos_iff weighs.positive] at wide
    refine ⟨stem, member, wide, ?_, rfl⟩
    intro other otherMember covers
    obtain ⟨otherNonempty, otherBegun⟩ := proper other otherMember
    rcases List.mem_append.mp otherMember with inEarlier | inRest
    · have lower := (across other inEarlier stem List.mem_cons_self).lt_of_length_eq covers.length
      exact lt_asymm lower covers.above
    · rcases List.mem_cons.mp inRest with rfl | inLater
      · exact lt_irrefl other covers.above
      · have before := (List.pairwise_cons.mp restCloses).1 other inLater
        exact remains (nodeOf arrivals other) (List.mem_map_of_mem inLater)
          ((weighs.samePlace_iff nonempty begun otherNonempty otherBegun before).mpr covers)
  · rintro ⟨stem, member, begins, uncovered, rfl⟩
    obtain ⟨nonempty, begun⟩ := proper stem member
    refine ⟨?_, ?_⟩
    · obtain ⟨earlier, later, rfl⟩ := List.append_of_mem member
      refine ⟨earlier.map (nodeOf arrivals), later.map (nodeOf arrivals), by simp, ?_⟩
      intro node nodeMember same
      obtain ⟨other, inLater, rfl⟩ := List.mem_map.mp nodeMember
      have otherMember : other ∈ earlier ++ stem :: later := by simp [inLater]
      obtain ⟨otherNonempty, otherBegun⟩ := proper other otherMember
      have before := (List.pairwise_cons.mp (List.pairwise_append.mp closes).2.1).1 other inLater
      exact uncovered other otherMember
        ((weighs.samePlace_iff nonempty begun otherNonempty otherBegun before).mp same)
    · rw [weighs.width_nodeOf begun, Stack.widthOf_pos_iff weighs.positive]
      exact begins

/-- Merging weighed arrivals makes a tree whose visible frames are the stems of
the target that no arrived stem covers, each once and at its extent. -/
theorem Weighs.exists_pushAll
    (weighs : Weighs arrivals target) :
    ∃ merge : Merge Rat,
      Merge.empty.pushAll arrivals = .ok merge ∧
      merge.finish.visible.Nodup ∧
      (∀ extent, extent ∈ merge.finish.visible ↔
        ∃ stem, Stack.IsStem target stem ∧
          (∀ other, other ≠ [] → (∃ arrival ∈ arrivals, other <+: arrival.1.path) →
            ¬ Stack.Covers target other stem) ∧
          Stack.extentOf target stem = extent) ∧
      ∀ node ∈ merge.finish.nodes, ∃ stem, (∃ arrival ∈ arrivals, stem <+: arrival.1.path) ∧
        node.width = Stack.widthOf target stem := by
  obtain ⟨merge, stems, merged, nodes, _, closes, complete⟩ :=
    Merge.exists_pushAll weighs.sorted
  have proper : ∀ stem ∈ stems, stem ≠ [] ∧ block stem arrivals ≠ [] := by
    intro stem member
    rw [block_ne_nil_iff]
    exact (complete stem).mp member
  have visible := weighs.mem_visible_iff closes proper
  rw [← nodes] at visible
  refine ⟨merge, merged, ?_, ?_, ?_⟩
  · have distinct : Node.PlacesDistinct merge.finish.nodes := by
      rw [nodes]
      exact Node.placesDistinct_insertAll _ List.Pairwise.nil
    refine List.pairwise_map.mpr ((distinct.filter _).imp ?_)
    intro first second apart same
    exact apart ⟨congrArg Extent.label same, congrArg Extent.depth same,
      congrArg Extent.finish same⟩
  · intro extent
    have shown : extent ∈ merge.finish.visible ↔
        ∃ node, (node ∈ merge.finish.nodes ∧ 0 < node.width) ∧ node.extent = extent := by
      simp [Tree.visible]
    rw [shown]
    constructor
    · rintro ⟨node, isVisible, rfl⟩
      obtain ⟨stem, member, begins, uncovered, rfl⟩ := (visible node).mp isVisible
      refine ⟨stem, ⟨(proper stem member).1, begins⟩, ?_, ?_⟩
      · intro other nonempty arrived
        exact uncovered other ((complete other).mpr ⟨nonempty, arrived⟩)
      · exact (weighs.extent_nodeOf (proper stem member).2).symm
    · rintro ⟨stem, ⟨nonempty, begins⟩, uncovered, rfl⟩
      have begun := weighs.block_ne_nil begins
      have member := (complete stem).mpr ⟨nonempty, block_ne_nil_iff.mp begun⟩
      refine ⟨nodeOf arrivals stem, (visible _).mpr ⟨stem, member, begins, ?_, rfl⟩,
        weighs.extent_nodeOf begun⟩
      intro other otherMember
      obtain ⟨otherNonempty, arrived⟩ := (complete other).mp otherMember
      exact uncovered other otherNonempty arrived
  · intro node member
    rw [nodes, Node.mem_insertAll_iff] at member
    obtain ⟨_, _, split, _⟩ := member
    have inMap : node ∈ stems.map (nodeOf arrivals) := by simp [split]
    obtain ⟨stem, stemMember, rfl⟩ := List.mem_map.mp inMap
    exact ⟨stem, ((complete stem).mp stemMember).2,
      weighs.width_nodeOf (proper stem stemMember).2⟩

end Weighs

/-! ## Arrivals of coalesced and of paired stacks -/

/-- The arrivals of a differential tree. -/
def arrivalsOfPairs (pairs : List (PairedStack Rat)) : List (Arrival Rat) :=
  pairs.map fun paired => (paired.target, some paired.delta)

/-- What arrives is made of the values of a table. -/
theorem exists_arrival_iff
    {Key Value : Type}
    {table : FirstSeen Key Value}
    {ordered : List Value}
    (perm : ordered.Perm (table.map Prod.snd))
    (arrive : Value -> Arrival Rat)
    (holds : Arrival Rat -> Prop) :
    (∃ arrival ∈ ordered.map arrive, holds arrival) ↔ ∃ entry ∈ table, holds (arrive entry.2) := by
  constructor
  · rintro ⟨_, member, kind⟩
    obtain ⟨value, inOrder, rfl⟩ := List.mem_map.mp member
    obtain ⟨entry, inTable, rfl⟩ := List.mem_map.mp (perm.mem_iff.mp inOrder)
    exact ⟨entry, inTable, kind⟩
  · rintro ⟨entry, member, kind⟩
    have inOrder := perm.mem_iff.mpr (List.mem_map_of_mem member)
    exact ⟨arrive entry.2, List.mem_map_of_mem inOrder, kind⟩

variable {baseline target : List (Stack Rat)}

/-- Sorted stacks of a coalesced target, in whatever order they came, weigh what the
target weighs. -/
theorem weighs_coalesce
    {ordered : List (Stack Rat)}
    (perm : ordered.Perm ((Stack.coalesce target).map Prod.snd))
    (positive : ∀ stack ∈ target, 0 < stack.weight) :
    Weighs (arrivalsOf (Stack.sortByPath ordered)) target where
  sorted := sorted_arrivalsOf (Stack.isStableOrder_sortByPath _).sorted
  positive := positive
  weight holds := by
    have unchanged : (arrivalsOf (Stack.sortByPath ordered)).map Prod.fst =
        Stack.sortByPath ordered := by
      rw [arrivalsOf, List.map_map]
      exact List.map_id _
    have sortPerm := (Stack.isStableOrder_sortByPath ordered).perm.trans perm
    rw [unchanged, Stack.weightWhere_perm holds sortPerm]
    exact (Stack.gathers_coalesce target).weight holds

/-- Only paths of the target arrive at the tree of the target. -/
theorem exists_arrival_coalesce_iff
    {ordered : List (Stack Rat)}
    (perm : ordered.Perm ((Stack.coalesce target).map Prod.snd))
    (holds : List String -> Prop) :
    (∃ arrival ∈ arrivalsOf (Stack.sortByPath ordered), holds arrival.1.path) ↔
      ∃ stack ∈ target, holds stack.path := by
  rw [← (Stack.gathers_coalesce target).exists_path_iff]
  exact exists_arrival_iff ((Stack.isStableOrder_sortByPath ordered).perm.trans perm) _
    fun arrival => holds arrival.1.path

theorem ofStacks_perm (baseline target : List (Stack Rat)) :
    (PairedStack.ofStacks baseline target).Perm
      ((baseline.foldl PairedStack.addBaseline (target.foldl PairedStack.addTarget [])).map
        Prod.snd) :=
  Sorting.sort_perm _ _

theorem sorted_arrivalsOfPairs (baseline target : List (Stack Rat)) :
    Sorted (arrivalsOfPairs (PairedStack.ofStacks baseline target)) :=
  List.pairwise_map.mpr (PairedStack.sorted_ofStacks baseline target)

/-- What arrives at a differential tree weighs what the target weighs. -/
theorem weightWhere_arrivalsOfPairs
    (holds : List String -> Bool)
    (baseline target : List (Stack Rat)) :
    Stack.weightWhere holds
        ((arrivalsOfPairs (PairedStack.ofStacks baseline target)).map Prod.fst) =
      Stack.weightWhere holds target := by
  have gathered := (Stack.gathers_addBaseline baseline target).weight holds
  rw [Stack.weightWhere_append, Stack.weightWhere_unweighted, add_zero] at gathered
  rw [← gathered, arrivalsOfPairs, List.map_map]
  apply Stack.weightWhere_perm
  have perm := (ofStacks_perm baseline target).map PairedStack.target
  rwa [List.map_map] at perm

theorem weighs_ofStacks
    (baseline : List (Stack Rat))
    (positive : ∀ stack ∈ target, 0 < stack.weight) :
    Weighs (arrivalsOfPairs (PairedStack.ofStacks baseline target)) target where
  sorted := sorted_arrivalsOfPairs baseline target
  positive := positive
  weight holds := weightWhere_arrivalsOfPairs holds baseline target

/-- Paths of the target and of the baseline arrive at the differential tree. -/
theorem exists_arrival_ofStacks_iff (holds : List String -> Prop) :
    (∃ arrival ∈ arrivalsOfPairs (PairedStack.ofStacks baseline target),
      holds arrival.1.path) ↔
      (∃ stack ∈ target, holds stack.path) ∨ ∃ stack ∈ baseline, holds stack.path := by
  have arrived := exists_arrival_iff (ofStacks_perm baseline target)
    (fun paired => (paired.target, some paired.delta))
    (fun arrival => holds arrival.1.path)
  refine (arrived.trans
    ((Stack.gathers_addBaseline baseline target).exists_path_iff holds)).trans ?_
  simp only [List.mem_append, List.mem_map, or_and_right, exists_or, exists_exists_and_eq_and]
  rfl

/-! ## The trees of the target -/

/-- What covers a stem in the differential tree is a stem of the baseline. -/
theorem uncovered_iff
    {stem : List String}
    (isStem : Stack.IsStem target stem) :
    (∀ other, other ≠ [] →
      (∃ arrival ∈ arrivalsOfPairs (PairedStack.ofStacks baseline target),
        other <+: arrival.1.path) →
      ¬ Stack.Covers target other stem) ↔
      ∀ cover, ¬ Stack.Hides baseline target cover stem := by
  constructor
  · intro uncovered cover hides
    obtain ⟨nonempty, begins⟩ := hides.baseline
    refine uncovered cover nonempty ?_ hides.toCovers
    exact (exists_arrival_ofStacks_iff (fun path => cover <+: path)).mpr (Or.inr begins)
  · intro unhidden cover nonempty arrived covers
    rcases (exists_arrival_ofStacks_iff (fun path => cover <+: path)).mp arrived with
      ⟨stack, member, starts⟩ | begins
    · exact covers.weightless stack member starts
    · exact unhidden cover ⟨covers, isStem, nonempty, begins⟩

/-- The differential tree shows the frames of the stems that nothing hides. -/
theorem exists_pushAll_ofStacks
    (baseline : List (Stack Rat))
    (positive : ∀ stack ∈ target, 0 < stack.weight) :
    ∃ merge : Merge Rat,
      Merge.empty.pushAll (arrivalsOfPairs (PairedStack.ofStacks baseline target)) = .ok merge ∧
      merge.finish.visible.Nodup ∧
      ∀ extent, extent ∈ merge.finish.visible ↔
        ∃ stem, Stack.IsStem target stem ∧ (∀ cover, ¬ Stack.Hides baseline target cover stem) ∧
          Stack.extentOf target stem = extent := by
  obtain ⟨merge, merged, distinct, shown, _⟩ := (weighs_ofStacks baseline positive).exists_pushAll
  refine ⟨merge, merged, distinct, ?_⟩
  intro extent
  rw [shown]
  apply exists_congr
  intro stem
  apply and_congr_right
  intro isStem
  rw [uncovered_iff isStem]

/-- The tree of the target alone has the frames of all stems, and no others. -/
theorem exists_pushAll_coalesce
    (positive : ∀ stack ∈ target, 0 < stack.weight) :
    ∃ merge : Merge Rat,
      Merge.empty.pushAll
        (arrivalsOf (Stack.sortByPath ((Stack.coalesce target).map Prod.snd))) = .ok merge ∧
      (merge.finish.nodes.map Node.extent).Nodup ∧
      ∀ extent, extent ∈ merge.finish.nodes.map Node.extent ↔
        ∃ stem, Stack.IsStem target stem ∧ Stack.extentOf target stem = extent := by
  obtain ⟨merge, merged, distinct, shown, wide⟩ :=
    (weighs_coalesce (List.Perm.refl _) positive).exists_pushAll
  have allVisible : merge.finish.visible = merge.finish.nodes.map Node.extent := by
    rw [Tree.visible, List.filter_eq_self.mpr]
    intro node member
    obtain ⟨stem, arrived, width⟩ := wide node member
    rw [exists_arrival_coalesce_iff (List.Perm.refl _) (fun path => stem <+: path)] at arrived
    rw [width]
    exact decide_eq_true ((Stack.widthOf_pos_iff positive).mpr arrived)
  rw [allVisible] at distinct shown
  refine ⟨merge, merged, distinct, ?_⟩
  intro extent
  rw [shown]
  apply exists_congr
  intro stem
  apply and_congr_right
  intro _
  apply and_iff_right
  intro other _ arrived covers
  rw [exists_arrival_coalesce_iff (List.Perm.refl _) (fun path => other <+: path)] at arrived
  obtain ⟨stack, member, starts⟩ := arrived
  exact covers.weightless stack member starts

end Merge

/-! ## The differential tree and its target -/

namespace Tree

/-- The visible frames of a differential tree are those frames of the target
that no stem of the baseline hides, and all of them exactly if none is hidden. -/
theorem visible_difference
    (baseline target : List (Stack Rat))
    (positive : ∀ stack ∈ target, 0 < stack.weight) :
    ∃ differential plain : Tree Rat,
      difference baseline target = .ok differential ∧
      ofStacks ((Stack.coalesce target).map Prod.snd) = .ok plain ∧
      (∀ extent, extent ∈ plain.nodes.map Node.extent ↔
        ∃ stem, Stack.IsStem target stem ∧ Stack.extentOf target stem = extent) ∧
      (∀ extent, extent ∈ differential.visible ↔
        ∃ stem, Stack.IsStem target stem ∧ (∀ cover, ¬ Stack.Hides baseline target cover stem) ∧
          Stack.extentOf target stem = extent) ∧
      (differential.visible.Perm (plain.nodes.map Node.extent) ↔
        ∀ cover stem, ¬ Stack.Hides baseline target cover stem) := by
  obtain ⟨differential, merged, distinct, shown⟩ := Merge.exists_pushAll_ofStacks baseline positive
  obtain ⟨plain, plainMerged, plainDistinct, plainShown⟩ := Merge.exists_pushAll_coalesce positive
  refine ⟨differential.finish, plain.finish, ?_, ?_, plainShown, shown, ?_⟩
  · rw [difference, ← Merge.arrivalsOfPairs, merged]
    rfl
  · rw [ofStacks, ← Merge.arrivalsOf, plainMerged]
    rfl
  · rw [List.perm_ext_iff_of_nodup distinct plainDistinct]
    constructor
    · intro same cover stem hides
      have inPlain := (plainShown _).mpr ⟨stem, hides.hidden, rfl⟩
      obtain ⟨other, otherStem, unhidden, sameExtent⟩ := (shown _).mp ((same _).mpr inPlain)
      rw [Stack.extentOf_injective positive otherStem hides.hidden sameExtent] at unhidden
      exact unhidden cover hides
    · intro unhidden extent
      rw [plainShown, shown]
      apply exists_congr
      intro stem
      apply and_congr_right
      intro _
      apply and_iff_right
      intro cover
      exact unhidden cover stem

/-- A target whose one path is below that of `movedBaseline`, with one leaf. -/
def movedTarget : List (Stack Rat) :=
  [⟨["", "a", "x"], 1, 1, false⟩]

/-- A baseline whose one path has the leaf of `movedTarget`. -/
def movedBaseline : List (Stack Rat) :=
  [⟨["", "b", "x"], 1, 1, false⟩]

theorem visible_difference_moved :
    (∀ stack ∈ movedTarget, 0 < stack.weight) ∧
    ∃ differential plain : Tree Rat,
      difference movedBaseline movedTarget = .ok differential ∧
      ofStacks ((Stack.coalesce movedTarget).map Prod.snd) = .ok plain ∧
      (∀ extent, extent ∈ plain.nodes.map Node.extent ↔
        ∃ stem, Stack.IsStem movedTarget stem ∧ Stack.extentOf movedTarget stem = extent) ∧
      (∀ extent, extent ∈ differential.visible ↔
        ∃ stem, Stack.IsStem movedTarget stem ∧
          (∀ cover, ¬ Stack.Hides movedBaseline movedTarget cover stem) ∧
          Stack.extentOf movedTarget stem = extent) ∧
      (differential.visible.Perm (plain.nodes.map Node.extent) ↔
        ∀ cover stem, ¬ Stack.Hides movedBaseline movedTarget cover stem) := by
  have positive : ∀ stack ∈ movedTarget, 0 < stack.weight := by decide
  exact ⟨positive, visible_difference movedBaseline movedTarget positive⟩

/-- A differential tree need not show every frame of its target: the leaf of
the moved path is hidden. -/
theorem not_forall_visible_difference :
    ¬ ∀ baseline target : List (Stack Rat),
      (∀ stack ∈ target, 0 < stack.weight) →
      (∀ stack ∈ baseline, 0 ≤ stack.weight) →
      ∀ differential plain : Tree Rat,
        difference baseline target = .ok differential →
        ofStacks ((Stack.coalesce target).map Prod.snd) = .ok plain →
        differential.visible.Perm (plain.nodes.map Node.extent) := by
  intro shown
  have merged : ∃ differential : Tree Rat, difference movedBaseline movedTarget = .ok differential ∧
      differential.visible.length = 2 := by
    refine ⟨⟨[⟨"x", 2, some 1, 1, 1, false, some (-1)⟩, ⟨"a", 1, some 0, 1, 1, false, some 1⟩,
      ⟨"b", 1, some 1, 1, 1, false, some (-1)⟩, ⟨"", 0, some 0, 1, 1, false, some 1⟩], 1⟩, ?_, ?_⟩
    · decide +kernel
    · decide +kernel
  have plainMerged : ∃ plain : Tree Rat,
      ofStacks ((Stack.coalesce movedTarget).map Prod.snd) = .ok plain ∧
        plain.nodes.length = 3 := by
    refine ⟨⟨[⟨"x", 2, some 0, 1, 1, false, none⟩, ⟨"a", 1, some 0, 1, 1, false, none⟩,
      ⟨"", 0, some 0, 1, 1, false, none⟩], 1⟩, ?_, rfl⟩
    decide +kernel
  obtain ⟨differential, isDifference, twoVisible⟩ := merged
  obtain ⟨plain, isPlain, threeNodes⟩ := plainMerged
  have perm := shown movedBaseline movedTarget (by decide) (by decide) differential plain
    isDifference isPlain
  have sameLength := perm.length_eq
  rw [twoVisible, List.length_map, threeNodes] at sameLength
  exact absurd sameLength (by decide)

end Tree
end FlameProfile
