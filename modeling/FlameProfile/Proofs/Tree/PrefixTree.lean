import Mathlib
import FlameProfile.Proofs.Sorting
import FlameProfile.Proofs.Tree.Closing

/-!
# The prefix tree of stacks

The tree of stacks holds one frame for every stem of a path and no other frame.
A frame spans the offsets of the stacks with its stem, which are neighbours once
the stacks are in the order of their paths. It counts calls and failures of the
stacks that end at it, or of the first stack that goes through it if none ends
there.

The arena tells frames apart by label, depth and end offset alone. As long as
the offset grows with every stack, this loses no frame.
-/

namespace FlameProfile

variable {Weight : Type}

namespace Stack

/-- The stacks with a stem stand at the places from `first` to before `last`. -/
structure IsBlock
    (ordered : List (Stack Weight))
    (stem : List String)
    (first last : Nat) : Prop where
  nonempty : first < last
  bound : last ≤ ordered.length
  prefix_iff : ∀ place, (inside : place < ordered.length) →
    (stem <+: ordered[place].path ↔ first ≤ place ∧ place < last)

variable [Arithmetic Weight]

/-- The offset behind the first stacks of a list. -/
def offsetAt
    (ordered : List (Stack Weight))
    (count : Nat) : Weight :=
  (ordered.take count).foldl (fun offset stack => offset + stack.weight) 0

/-- The frame of a stem, whose stacks stand at the places from `first` to before
`last`, the one at `first` being the opener. -/
structure IsFrameOver
    (ordered : List (Stack Weight))
    (stem : List String)
    (first last : Nat)
    (opener : Stack Weight)
    (node : Node Weight) : Prop where
  block : IsBlock ordered stem first last
  opener_eq : ordered[first]? = some opener
  label : stem.getLast? = some node.label
  depth : node.depth = stem.length - 1
  start : node.start = some (offsetAt ordered first)
  finish : node.finish = offsetAt ordered last
  calls : node.calls =
    ((ordered.filter fun stack => stack.path = stem).map Stack.calls).max?.getD opener.calls
  failed : node.failed =
    if ∃ stack ∈ ordered, stack.path = stem then
      ordered.any fun stack => stack.path = stem && stack.failed
    else
      opener.failed
  delta : node.delta = none

/-- The frame of a stem in the tree of ordered stacks. -/
def IsFrame
    (ordered : List (Stack Weight))
    (stem : List String)
    (node : Node Weight) : Prop :=
  ∃ first last opener, IsFrameOver ordered stem first last opener node

end Stack

namespace Merge

/-- Stacks that arrive without a change of their weight. -/
def arrivalsOf (ordered : List (Stack Weight)) : List (Arrival Weight) :=
  ordered.map fun stack => (stack, none)

/-- Stacks in the order of their paths arrive in that order. -/
theorem sorted_arrivalsOf
    {ordered : List (Stack Weight)}
    (sorted : ordered.Pairwise fun first second => ¬ second.path < first.path) :
    Sorted (arrivalsOf ordered) :=
  List.pairwise_map.mpr sorted

/-! ## What the arrivals of a block add up to -/

section Absorb

variable [Arithmetic Weight]

/-- The offset behind some arrivals is the one behind their stacks. -/
theorem offsetAfter_take_arrivalsOf
    (ordered : List (Stack Weight))
    (count : Nat) :
    offsetAfter ((arrivalsOf ordered).take count) = Stack.offsetAt ordered count := by
  rw [offsetAfter, arrivalsOf, ← List.map_take, List.foldl_map, Stack.offsetAt]

/-- A frame has the greatest count of calls of all that it absorbs. -/
theorem calls_foldl_absorb
    (frame : OpenFrame Weight)
    (arrivals : List (Arrival Weight)) :
    (arrivals.foldl absorb frame).calls =
      (arrivals.map fun arrival => arrival.1.calls).foldl max frame.calls := by
  induction arrivals generalizing frame with
  | nil => rfl
  | cons arrival rest inductionHypothesis => exact inductionHypothesis (absorb frame arrival)

/-- A frame has failed if it had, or if anything that it absorbs has. -/
theorem failed_foldl_absorb
    (frame : OpenFrame Weight)
    (arrivals : List (Arrival Weight)) :
    (arrivals.foldl absorb frame).failed =
      (frame.failed || arrivals.any fun arrival => arrival.1.failed) := by
  induction arrivals generalizing frame with
  | nil => exact (Bool.or_false _).symm
  | cons arrival rest inductionHypothesis =>
      rw [List.foldl_cons, inductionHypothesis, List.any_cons, ← Bool.or_assoc]
      rfl

/-- Arrivals without a change leave that of the frame. -/
theorem delta_foldl_absorb
    {frame : OpenFrame Weight}
    {arrivals : List (Arrival Weight)}
    (unchanged : ∀ arrival ∈ arrivals, arrival.2 = none) :
    (arrivals.foldl absorb frame).delta = frame.delta := by
  induction arrivals generalizing frame with
  | nil => rfl
  | cons arrival rest inductionHypothesis =>
      rw [List.foldl_cons, inductionHypothesis fun other member =>
        unchanged other (List.mem_cons_of_mem arrival member)]
      simp [absorb, unchanged arrival List.mem_cons_self]

end Absorb

/-- The arrivals of a path are those of its block that end there. -/
theorem filter_path_eq
    (stem : List String)
    (arrivals : List (Arrival Weight)) :
    (arrivals.filter fun arrival => arrival.1.path = stem) =
      (block stem arrivals).filter fun arrival => arrival.1.path = stem := by
  rw [block, List.filter_filter]
  apply List.filter_congr
  intro arrival _
  by_cases same : arrival.1.path = stem
  · simp [same]
  · simp [same]

/-- If some arrival of a block ends at the stem, so does the one that opens it. -/
theorem path_opener_eq
    {stem : List String}
    {arrivals later : List (Arrival Weight)}
    {opener arrival : Arrival Weight}
    (sorted : Sorted arrivals)
    (opened : block stem arrivals = opener :: later)
    (member : arrival ∈ arrivals)
    (ends : arrival.1.path = stem) :
    opener.1.path = stem := by
  have blockSorted : Sorted (opener :: later) := by
    rw [← opened]
    exact sorted.filter _
  have openerStarts : stem <+: opener.1.path := by
    have openerMember : opener ∈ block stem arrivals := by
      rw [opened]
      exact List.mem_cons_self
    exact (mem_block.mp openerMember).2
  have inBlock : arrival ∈ opener :: later := by
    rw [← opened, mem_block]
    exact ⟨member, ends ▸ List.prefix_rfl⟩
  rcases List.mem_cons.mp inBlock with rfl | inLater
  · exact ends
  · have notBelow := (List.pairwise_cons.mp blockSorted).1 arrival inLater
    rw [ends] at notBelow
    by_contra different
    exact notBelow (Path.lt_of_prefix_of_ne openerStarts (Ne.symm different))

/-- The arrivals of a path are the stacks of that path. -/
theorem filter_arrivalsOf
    (stem : List String)
    (ordered : List (Stack Weight)) :
    ((arrivalsOf ordered).filter fun arrival => arrival.1.path = stem) =
      arrivalsOf (ordered.filter fun stack => stack.path = stem) :=
  List.filter_map

/-- Stacks by themselves arrive without a change. -/
theorem delta_of_mem_arrivalsOf
    {ordered : List (Stack Weight)}
    {arrival : Arrival Weight}
    (member : arrival ∈ arrivalsOf ordered) :
    arrival.2 = none := by
  obtain ⟨stack, _, rfl⟩ := List.mem_map.mp member
  rfl

/-- If some stack ends at a stem, the stacks that do are the opener and what
adds to its frame. -/
theorem filter_eq_opener_cons
    {stem : List String}
    {ordered : List (Stack Weight)}
    {later : List (Arrival Weight)}
    {opener : Arrival Weight}
    (sorted : Sorted (arrivalsOf ordered))
    (opened : block stem (arrivalsOf ordered) = opener :: later)
    (ends : ∃ stack ∈ ordered, stack.path = stem) :
    arrivalsOf (ordered.filter fun stack => stack.path = stem) =
      opener :: later.filter fun arrival => arrival.1.path = stem := by
  obtain ⟨stack, member, pathEq⟩ := ends
  have arrives : (stack, none) ∈ arrivalsOf ordered := List.mem_map_of_mem member
  have openerPath := path_opener_eq sorted opened arrives pathEq
  rw [← filter_arrivalsOf, filter_path_eq, opened,
    List.filter_cons_of_pos (by simpa using openerPath)]

/-- If no stack ends at a stem, nothing adds to its frame. -/
theorem filter_later_eq_nil
    {stem : List String}
    {ordered : List (Stack Weight)}
    {later : List (Arrival Weight)}
    {opener : Arrival Weight}
    (opened : block stem (arrivalsOf ordered) = opener :: later)
    (goesOn : ¬ ∃ stack ∈ ordered, stack.path = stem) :
    (later.filter fun arrival => arrival.1.path = stem) = [] := by
  rw [List.filter_eq_nil_iff]
  intro arrival member ends
  have inBlock : arrival ∈ block stem (arrivalsOf ordered) := by
    rw [opened]
    exact List.mem_cons_of_mem opener member
  obtain ⟨stack, stackMember, rfl⟩ := List.mem_map.mp (mem_block.mp inBlock).1
  exact goesOn ⟨stack, stackMember, of_decide_eq_true ends⟩

/-! ## Frames of stacks -/

section Frames

variable [Arithmetic Weight] {ordered : List (Stack Weight)} {stem : List String}

omit [Arithmetic Weight] in
/-- The stacks with a stem stand between the places of its block. -/
theorem isBlock_arrivalsOf
    (sorted : Sorted (arrivalsOf ordered))
    (begun : block stem (arrivalsOf ordered) ≠ []) :
    Stack.IsBlock ordered stem (firstPlace stem (arrivalsOf ordered))
      (lastPlace stem (arrivalsOf ordered)) where
  nonempty := firstPlace_lt_lastPlace begun
  bound := by
    have bound := lastPlace_le_length stem sorted
    rwa [arrivalsOf, List.length_map] at bound
  prefix_iff := by
    intro place inside
    have found : (arrivalsOf ordered)[place]? = some (ordered[place], none) := by
      rw [arrivalsOf, List.getElem?_map, List.getElem?_eq_getElem inside, Option.map_some]
    exact prefix_iff_place sorted found

omit [Arithmetic Weight] in
/-- The opener stands where the block begins. -/
theorem getElem?_firstPlace
    {later : List (Arrival Weight)}
    {opener : Arrival Weight}
    (sorted : Sorted (arrivalsOf ordered))
    (opened : block stem (arrivalsOf ordered) = opener :: later) :
    ordered[firstPlace stem (arrivalsOf ordered)]? = some opener.1 := by
  obtain ⟨after, split, _⟩ := block_split stem sorted
  have found := congrArg (fun arrivals => arrivals[firstPlace stem (arrivalsOf ordered)]?) split
  simp only [firstPlace] at found
  rw [List.append_assoc, List.getElem?_append_right le_rfl, Nat.sub_self, opened, List.cons_append,
    List.getElem?_cons_zero, arrivalsOf, List.getElem?_map] at found
  obtain ⟨stack, stackFound, rfl⟩ := Option.map_eq_some_iff.mp found
  exact stackFound

/-- The frame of a stem counts the greatest calls of the stacks that end at it, or those of its
opener if none does. -/
theorem calls_frameOf
    {later : List (Arrival Weight)}
    {opener : Arrival Weight}
    (sorted : Sorted (arrivalsOf ordered))
    (opened : block stem (arrivalsOf ordered) = opener :: later) :
    (frameOf (arrivalsOf ordered) stem).calls =
      ((ordered.filter fun stack => stack.path = stem).map Stack.calls).max?.getD
        opener.1.calls := by
  rw [frameOf_of_block_eq_cons opened, calls_foldl_absorb, openedBy]
  by_cases ends : ∃ stack ∈ ordered, stack.path = stem
  · have counts := congrArg (List.map fun arrival => arrival.1.calls)
      (filter_eq_opener_cons sorted opened ends)
    rw [arrivalsOf, List.map_map, List.map_cons] at counts
    change List.map Stack.calls _ = _ at counts
    rw [counts, List.max?_cons', Option.getD_some]
  · have noStack : (ordered.filter fun stack => stack.path = stem) = [] := by
      rw [List.filter_eq_nil_iff]
      intro stack member pathEq
      exact ends ⟨stack, member, of_decide_eq_true pathEq⟩
    rw [filter_later_eq_nil opened ends, noStack]
    rfl

theorem failed_frameOf
    {later : List (Arrival Weight)}
    {opener : Arrival Weight}
    (sorted : Sorted (arrivalsOf ordered))
    (opened : block stem (arrivalsOf ordered) = opener :: later) :
    (frameOf (arrivalsOf ordered) stem).failed =
      if ∃ stack ∈ ordered, stack.path = stem then
        ordered.any fun stack => stack.path = stem && stack.failed
      else
        opener.1.failed := by
  rw [frameOf_of_block_eq_cons opened, failed_foldl_absorb, openedBy]
  split
  next ends =>
    have failures := congrArg (fun arrivals => arrivals.any fun arrival => arrival.1.failed)
      (filter_eq_opener_cons sorted opened ends)
    rw [arrivalsOf, List.any_map, List.any_filter, List.any_cons] at failures
    exact failures.symm
  next goesOn => rw [filter_later_eq_nil opened goesOn, List.any_nil, Bool.or_false]

/-- The closed frame of a stem is its frame in the tree of the stacks. -/
theorem isFrame_nodeOf
    (sorted : Sorted (arrivalsOf ordered))
    (nonempty : stem ≠ [])
    (begun : block stem (arrivalsOf ordered) ≠ []) :
    Stack.IsFrame ordered stem (nodeOf (arrivalsOf ordered) stem) := by
  obtain ⟨opener, later, opened⟩ := List.exists_cons_of_ne_nil begun
  refine ⟨firstPlace stem (arrivalsOf ordered), lastPlace stem (arrivalsOf ordered), opener.1, ?_⟩
  constructor
  case block => exact isBlock_arrivalsOf sorted begun
  case opener_eq => exact getElem?_firstPlace sorted opened
  case label =>
    cases isLast : stem.getLast? with
    | none => exact absurd (List.getLast?_eq_none_iff.mp isLast) nonempty
    | some last =>
        rw [nodeOf, close, label_frameOf, isLast]
        rfl
  case depth => rfl
  case start =>
    rw [nodeOf, close, start_frameOf begun, ← take_firstPlace, offsetAfter_take_arrivalsOf]
  case finish => rw [nodeOf, close, ← take_lastPlace _ sorted, offsetAfter_take_arrivalsOf]
  case calls => exact calls_frameOf sorted opened
  case failed => exact failed_frameOf sorted opened
  case delta =>
    have unchanged : ∀ arrival ∈ opener :: later, arrival.2 = none := by
      intro arrival member
      rw [← opened] at member
      exact delta_of_mem_arrivalsOf (mem_block.mp member).1
    rw [nodeOf, close, frameOf_of_block_eq_cons opened, delta_foldl_absorb]
    · exact unchanged opener List.mem_cons_self
    · intro arrival member
      exact unchanged arrival (List.mem_cons_of_mem opener (List.mem_of_mem_filter member))

end Frames

/-! ## Frames at places of their own -/

section Distinct

variable [Arithmetic Weight] [OrderedArithmetic Weight]

/-- An offset that grows with every stack tells any two counts apart. -/
theorem offsetAt_lt_offsetAt
    {ordered : List (Stack Weight)}
    (increasing : ∀ count < ordered.length,
      Stack.offsetAt ordered count < Stack.offsetAt ordered (count + 1))
    {first second : Nat}
    (less : first < second)
    (bound : second ≤ ordered.length) :
    Stack.offsetAt ordered first < Stack.offsetAt ordered second := by
  induction second, less using Nat.le_induction with
  | base => exact increasing first bound
  | succ second _ inductionHypothesis =>
      exact OrderedArithmetic.lt_trans (inductionHypothesis (Nat.le_of_succ_le bound))
        (increasing second bound)

/-- Under a growing offset no two stems have frames at the same place. -/
theorem placesDistinct_nodeOf
    {ordered : List (Stack Weight)}
    {stems : List (List String)}
    (sorted : Sorted (arrivalsOf ordered))
    (increasing : ∀ count < ordered.length,
      Stack.offsetAt ordered count < Stack.offsetAt ordered (count + 1))
    (closes : stems.Pairwise Path.ClosesBefore)
    (proper : ∀ stem ∈ stems, stem ≠ [] ∧ block stem (arrivalsOf ordered) ≠ []) :
    Node.PlacesDistinct (stems.map (nodeOf (arrivalsOf ordered))) := by
  refine List.pairwise_map.mpr (closes.imp_of_mem ?_)
  rintro first second firstMember secondMember before ⟨_, sameDepth, sameFinish⟩
  obtain ⟨firstNonempty, firstBegun⟩ := proper first firstMember
  obtain ⟨secondNonempty, secondBegun⟩ := proper second secondMember
  have firstPositive := List.length_pos_iff.mpr firstNonempty
  have secondPositive := List.length_pos_iff.mpr secondNonempty
  have sameLength : first.length = second.length := by
    change first.length - 1 = second.length - 1 at sameDepth
    omega
  have below := before.lt_of_length_eq sameLength
  have apart : ¬ first <+: second := by
    intro starts
    rw [starts.eq_of_length sameLength] at below
    exact lt_irrefl second below
  have less : lastPlace first (arrivalsOf ordered) < lastPlace second (arrivalsOf ordered) :=
    (lastPlace_le_firstPlace sorted below apart firstBegun secondBegun).trans_lt
      (firstPlace_lt_lastPlace secondBegun)
  have bound : lastPlace second (arrivalsOf ordered) ≤ ordered.length := by
    have inArrivals := lastPlace_le_length second sorted
    rwa [arrivalsOf, List.length_map] at inArrivals
  have grows := offsetAt_lt_offsetAt increasing less bound
  rw [← offsetAfter_take_arrivalsOf, ← offsetAfter_take_arrivalsOf, take_lastPlace _ sorted,
    take_lastPlace _ sorted] at grows
  change offsetAfter _ = offsetAfter _ at sameFinish
  rw [sameFinish] at grows
  exact OrderedArithmetic.lt_irrefl _ grows

end Distinct

end Merge

namespace Tree

variable [Arithmetic Weight] [OrderedArithmetic Weight]

/-- If the offset grows with every stack, the tree of stacks is their prefix
tree: its frames are, one for one, the frames of the non-empty beginnings of
their paths, and its weight is the last offset. -/
theorem ofStacks_isPrefixTree
    (collapsed : List (Stack Weight))
    (increasing : ∀ count < collapsed.length,
      Stack.offsetAt (Stack.sortByPath collapsed) count <
        Stack.offsetAt (Stack.sortByPath collapsed) (count + 1)) :
    ∃ (tree : Tree Weight) (stems : List (List String)),
      ofStacks collapsed = .ok tree ∧
      Stack.IsStableOrder collapsed (Stack.sortByPath collapsed) ∧
      stems.Nodup ∧
      (∀ stem, stem ∈ stems ↔ stem ≠ [] ∧ ∃ stack ∈ collapsed, stem <+: stack.path) ∧
      List.Forall₂ (Stack.IsFrame (Stack.sortByPath collapsed)) stems tree.nodes ∧
      tree.nodes.Nodup ∧
      tree.total = Stack.offsetAt (Stack.sortByPath collapsed) collapsed.length := by
  have stable := Stack.isStableOrder_sortByPath collapsed
  have sorted := Merge.sorted_arrivalsOf stable.sorted
  obtain ⟨merge, stems, merged, nodes, total, closes, complete⟩ := Merge.exists_pushAll sorted
  have proper : ∀ stem ∈ stems, stem ≠ [] ∧
      Merge.block stem (Merge.arrivalsOf (Stack.sortByPath collapsed)) ≠ [] := by
    intro stem member
    rw [Merge.block_ne_nil_iff]
    exact (complete stem).mp member
  rw [← stable.perm.length_eq] at increasing
  have distinct := Merge.placesDistinct_nodeOf sorted increasing closes proper
  rw [Node.insertAll_of_placesDistinct distinct, List.nil_append] at nodes
  refine ⟨merge.finish, stems, ?_, stable, ?_, ?_, ?_, ?_, ?_⟩
  · rw [ofStacks, ← Merge.arrivalsOf, merged]
    rfl
  · apply closes.imp
    rintro stem _ before rfl
    exact Path.not_closesBefore_self stem before
  · intro stem
    rw [complete]
    apply and_congr_right
    intro _
    simp [Merge.arrivalsOf, stable.perm.mem_iff]
  · rw [nodes, List.forall₂_map_right_iff, List.forall₂_same]
    intro stem member
    exact Merge.isFrame_nodeOf sorted (proper stem member).1 (proper stem member).2
  · rw [nodes]
    apply distinct.imp
    rintro node _ apart rfl
    exact apart (Node.samePlace_self node)
  · rw [total, ← Merge.offsetAfter_take_arrivalsOf, ← stable.perm.length_eq, Merge.arrivalsOf,
      ← List.length_map, List.take_length]

/-- Stacks out of order, two of them with one path. -/
def unorderedStacks : List (Stack Rat) :=
  [⟨["", "a", "b"], 2, 1, false⟩, ⟨["", "a"], 1, 3, true⟩, ⟨["", "a", "b"], 1, 2, false⟩]

theorem isPrefixTree_unorderedStacks :
    (∀ count < unorderedStacks.length,
      Stack.offsetAt (Stack.sortByPath unorderedStacks) count <
        Stack.offsetAt (Stack.sortByPath unorderedStacks) (count + 1)) ∧
    ∃ (tree : Tree Rat) (stems : List (List String)),
      ofStacks unorderedStacks = .ok tree ∧
      Stack.IsStableOrder unorderedStacks (Stack.sortByPath unorderedStacks) ∧
      stems.Nodup ∧
      (∀ stem, stem ∈ stems ↔ stem ≠ [] ∧ ∃ stack ∈ unorderedStacks, stem <+: stack.path) ∧
      List.Forall₂ (Stack.IsFrame (Stack.sortByPath unorderedStacks)) stems tree.nodes ∧
      tree.nodes.Nodup ∧
      tree.total = Stack.offsetAt (Stack.sortByPath unorderedStacks) unorderedStacks.length := by
  have increasing : ∀ count < unorderedStacks.length,
      Stack.offsetAt (Stack.sortByPath unorderedStacks) count <
        Stack.offsetAt (Stack.sortByPath unorderedStacks) (count + 1) := by
    decide +kernel
  exact ⟨increasing, ofStacks_isPrefixTree unorderedStacks increasing⟩

end Tree
end FlameProfile
