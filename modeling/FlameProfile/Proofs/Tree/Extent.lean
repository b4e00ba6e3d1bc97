import Mathlib
import FlameProfile.Proofs.Sorting
import FlameProfile.Proofs.Tree.Block

/-!
# Extents of frames in exact arithmetic

The extent of a frame is what is drawn of it: its label, its depth and the range
of offsets that it covers. In exact arithmetic the range is a sum of weights. It
starts behind the weight of all paths below the stem of the frame and is as wide
as the weight of the paths with the stem, in whatever order the stacks come and
in however many parts the weight of a path comes.
-/

namespace FlameProfile

/-- What is drawn of a frame. -/
structure Extent (Weight : Type) where
  label : String
  depth : Nat
  start : Option Weight
  finish : Weight
  deriving DecidableEq

/-- The extent of a node. -/
def Node.extent
    {Weight : Type}
    (node : Node Weight) : Extent Weight :=
  ⟨node.label, node.depth, node.start, node.finish⟩

namespace Stack

/-! ## Weight of paths -/

/-- The weight of the stacks whose paths are of some kind. -/
def weightWhere
    (holds : List String -> Bool)
    (collapsed : List (Stack Rat)) : Rat :=
  ((collapsed.filter fun stack => holds stack.path).map Stack.weight).sum

@[simp] theorem weightWhere_nil (holds : List String -> Bool) :
    weightWhere holds [] = 0 := rfl

theorem weightWhere_cons
    (holds : List String -> Bool)
    (stack : Stack Rat)
    (rest : List (Stack Rat)) :
    weightWhere holds (stack :: rest) =
      (if holds stack.path then stack.weight else 0) + weightWhere holds rest := by
  by_cases kind : holds stack.path = true
  · simp [weightWhere, kind]
  · simp [weightWhere, kind]

theorem weightWhere_perm
    (holds : List String -> Bool)
    {first second : List (Stack Rat)}
    (perm : first.Perm second) :
    weightWhere holds first = weightWhere holds second :=
  ((perm.filter _).map Stack.weight).sum_eq

/-- Paths of a wider kind weigh more by the weight of those that are of the
wider kind alone. -/
theorem weightWhere_eq_add
    (narrow wide : List String -> Bool)
    (widens : ∀ path, narrow path = true → wide path = true)
    (collapsed : List (Stack Rat)) :
    weightWhere wide collapsed =
      weightWhere narrow collapsed +
        weightWhere (fun path => wide path && !narrow path) collapsed := by
  induction collapsed with
  | nil => simp
  | cons stack rest inductionHypothesis =>
      rw [weightWhere_cons, weightWhere_cons, weightWhere_cons, inductionHypothesis]
      cases isNarrow : narrow stack.path with
      | true =>
          rw [widens stack.path isNarrow]
          simp [add_assoc]
      | false =>
          simp [add_left_comm]

section Positive

variable {collapsed : List (Stack Rat)}

theorem weightWhere_nonneg
    (holds : List String -> Bool)
    (nonnegative : ∀ stack ∈ collapsed, 0 ≤ stack.weight) :
    0 ≤ weightWhere holds collapsed := by
  apply List.sum_nonneg
  intro weight member
  obtain ⟨stack, stackMember, rfl⟩ := List.mem_map.mp member
  exact nonnegative stack (List.mem_of_mem_filter stackMember)

/-- Where every stack weighs something, paths of a kind weigh something exactly
if there are any. -/
theorem weightWhere_pos_iff
    (holds : List String -> Bool)
    (positive : ∀ stack ∈ collapsed, 0 < stack.weight) :
    0 < weightWhere holds collapsed ↔ ∃ stack ∈ collapsed, holds stack.path = true := by
  constructor
  · intro heavy
    by_contra none
    push Not at none
    rw [weightWhere, List.filter_eq_nil_iff.mpr none] at heavy
    exact lt_irrefl 0 heavy
  · rintro ⟨stack, member, kind⟩
    apply List.sum_pos
    · intro weight weightMember
      obtain ⟨other, otherMember, rfl⟩ := List.mem_map.mp weightMember
      exact positive other (List.mem_of_mem_filter otherMember)
    · exact List.ne_nil_of_mem (List.mem_map_of_mem (List.mem_filter.mpr ⟨member, kind⟩))

theorem weightWhere_eq_zero_iff
    (holds : List String -> Bool)
    (positive : ∀ stack ∈ collapsed, 0 < stack.weight) :
    weightWhere holds collapsed = 0 ↔ ∀ stack ∈ collapsed, ¬ holds stack.path = true := by
  have nonnegative : 0 ≤ weightWhere holds collapsed :=
    weightWhere_nonneg holds fun stack member => (positive stack member).le
  rw [← nonnegative.not_lt_iff_eq', weightWhere_pos_iff holds positive]
  push Not
  rfl

end Positive

/-! ## Extents of stems -/

/-- The weight of the paths below a stem. -/
def startOf
    (collapsed : List (Stack Rat))
    (stem : List String) : Rat :=
  weightWhere (fun path => path < stem) collapsed

/-- The weight of the paths with a stem. -/
def widthOf
    (collapsed : List (Stack Rat))
    (stem : List String) : Rat :=
  weightWhere (fun path => stem <+: path) collapsed

/-- The extent of the frame of a stem. -/
def extentOf
    (collapsed : List (Stack Rat))
    (stem : List String) : Extent Rat where
  label := stem.getLast?.getD ""
  depth := stem.length - 1
  start := some (startOf collapsed stem)
  finish := startOf collapsed stem + widthOf collapsed stem

/-- A path begins with a stem. -/
def IsStem
    (collapsed : List (Stack Rat))
    (stem : List String) : Prop :=
  stem ≠ [] ∧ ∃ stack ∈ collapsed, stem <+: stack.path

section Order

variable {collapsed : List (Stack Rat)} {first second : List String}

theorem widthOf_pos_iff
    (positive : ∀ stack ∈ collapsed, 0 < stack.weight) :
    0 < widthOf collapsed first ↔ ∃ stack ∈ collapsed, first <+: stack.path := by
  simp [widthOf, weightWhere_pos_iff _ positive]

theorem widthOf_eq_zero_iff
    (positive : ∀ stack ∈ collapsed, 0 < stack.weight) :
    widthOf collapsed first = 0 ↔ ∀ stack ∈ collapsed, ¬ first <+: stack.path := by
  simp [widthOf, weightWhere_eq_zero_iff _ positive]

/-- Between two stems of one length there lies the weight of the paths that are
below the higher one and neither below the lower one nor begin with it. -/
theorem startOf_eq_add
    (below : first < second)
    (sameLength : first.length = second.length) :
    startOf collapsed second =
      startOf collapsed first + widthOf collapsed first +
        weightWhere
          (fun path => path < second && !(path < first) && !(first <+: path)) collapsed := by
  have apart : ¬ first <+: second := by
    intro starts
    rw [starts.eq_of_length sameLength] at below
    exact lt_irrefl second below
  have inside : ∀ path, first <+: path → path < second :=
    fun path starts => Path.lt_of_prefix_of_lt below apart starts List.prefix_rfl
  rw [startOf, startOf, widthOf,
    weightWhere_eq_add (fun path => path < first) (fun path => path < second),
    weightWhere_eq_add (fun path => first <+: path)
      (fun path => path < second && !(path < first)), add_assoc]
  · intro path starts
    have starts := of_decide_eq_true starts
    simpa [inside path starts] using Path.not_lt_of_isPrefix starts
  · intro path less
    exact decide_eq_true (lt_trans (of_decide_eq_true less) below)

/-- Frames at one depth cover their ranges one after the other. -/
theorem finish_le_start
    (positive : ∀ stack ∈ collapsed, 0 < stack.weight)
    (below : first < second)
    (sameLength : first.length = second.length) :
    (extentOf collapsed first).finish ≤ startOf collapsed second := by
  rw [startOf_eq_add below sameLength]
  exact le_add_of_nonneg_right
    (weightWhere_nonneg _ fun stack member => (positive stack member).le)

/-- A frame ends where a later one of its depth begins exactly if no path lies
between them. -/
theorem finish_eq_start_iff
    (positive : ∀ stack ∈ collapsed, 0 < stack.weight)
    (below : first < second)
    (sameLength : first.length = second.length) :
    (extentOf collapsed first).finish = startOf collapsed second ↔
      ∀ stack ∈ collapsed, stack.path < second → stack.path < first ∨ first <+: stack.path := by
  rw [startOf_eq_add below sameLength, extentOf, left_eq_add, weightWhere_eq_zero_iff _ positive]
  apply forall₂_congr
  intro stack _
  by_cases less : stack.path < second
  · by_cases lower : stack.path < first
    · simp [less, lower]
    · simp [less, lower]
  · simp [less]

/-- Different stems of paths have different extents. -/
theorem extentOf_injective
    (positive : ∀ stack ∈ collapsed, 0 < stack.weight)
    (firstStem : IsStem collapsed first)
    (secondStem : IsStem collapsed second)
    (same : extentOf collapsed first = extentOf collapsed second) :
    first = second := by
  have firstLength := List.length_pos_iff.mpr firstStem.1
  have secondLength := List.length_pos_iff.mpr secondStem.1
  have sameDepth : first.length - 1 = second.length - 1 := congrArg Extent.depth same
  have sameLength : first.length = second.length := by omega
  have sameFinish := congrArg Extent.finish same
  have firstWidth := (widthOf_pos_iff positive).mpr firstStem.2
  have secondWidth := (widthOf_pos_iff positive).mpr secondStem.2
  rcases lt_trichotomy first second with below | equal | above
  · have ordered := finish_le_start positive below sameLength
    rw [sameFinish] at ordered
    exact absurd ordered (not_le.mpr (lt_add_of_pos_right _ secondWidth))
  · exact equal
  · have ordered := finish_le_start positive above sameLength.symm
    rw [← sameFinish] at ordered
    exact absurd ordered (not_le.mpr (lt_add_of_pos_right _ firstWidth))

end Order

end Stack

/-! ## Extents of merged frames -/

namespace Merge

/-- The arrivals before a block are those with paths below the stem. -/
theorem before_eq_filter
    {Weight : Type}
    {stem : List String}
    {arrivals : List (Arrival Weight)}
    (sorted : Sorted arrivals)
    (begun : block stem arrivals ≠ []) :
    before stem arrivals = arrivals.filter fun arrival => arrival.1.path < stem := by
  induction arrivals with
  | nil => rfl
  | cons arrival rest inductionHypothesis =>
      obtain ⟨notBelow, restSorted⟩ := List.pairwise_cons.mp sorted
      by_cases starts : stem <+: arrival.1.path
      · have noneBelow : ∀ other ∈ arrival :: rest, ¬ other.1.path < stem := by
          intro other member less
          rcases List.mem_cons.mp member with rfl | inRest
          · exact Path.not_lt_of_isPrefix starts less
          · have stemLess := lt_of_lt_of_le less (not_lt.mp (Path.not_lt_of_isPrefix starts))
            exact notBelow other inRest stemLess
        rw [before, List.takeWhile_cons_of_neg (by simpa using starts), eq_comm,
          List.filter_eq_nil_iff]
        simpa using noneBelow
      · have restBegun : block stem rest ≠ [] := by
          rwa [block, List.filter_cons_of_neg (by simpa using starts)] at begun
        have less : arrival.1.path < stem := by
          obtain ⟨later, inRest, laterStarts⟩ := block_ne_nil_iff.mp restBegun
          by_contra notLess
          exact starts (Path.prefix_of_between List.prefix_rfl laterStarts notLess
            (notBelow later inRest))
        rw [before, List.takeWhile_cons_of_pos (by simpa using starts),
          List.filter_cons_of_pos (by simpa using less)]
        exact congrArg (List.cons arrival) (inductionHypothesis restSorted restBegun)

/-- In exact arithmetic the offset is the sum of the weights. -/
theorem offsetAfter_eq_sum (arrivals : List (Arrival Rat)) :
    offsetAfter arrivals = (arrivals.map fun arrival => arrival.1.weight).sum := by
  rw [List.sum_eq_foldl, offsetAfter, List.foldl_map]

theorem offsetAfter_filter
    (holds : List String -> Bool)
    (arrivals : List (Arrival Rat)) :
    offsetAfter (arrivals.filter fun arrival => holds arrival.1.path) =
      Stack.weightWhere holds (arrivals.map Prod.fst) := by
  rw [offsetAfter_eq_sum, Stack.weightWhere, List.filter_map, List.map_map]
  rfl

/-- The frame of a stem covers the range of the stem. -/
theorem extent_nodeOf
    {stem : List String}
    {arrivals : List (Arrival Rat)}
    (sorted : Sorted arrivals)
    (begun : block stem arrivals ≠ []) :
    (nodeOf arrivals stem).extent = Stack.extentOf (arrivals.map Prod.fst) stem := by
  have start : offsetAfter (before stem arrivals) =
      Stack.startOf (arrivals.map Prod.fst) stem := by
    rw [before_eq_filter sorted begun]
    exact offsetAfter_filter (fun path => path < stem) arrivals
  have width : offsetAfter (block stem arrivals) =
      Stack.widthOf (arrivals.map Prod.fst) stem :=
    offsetAfter_filter (fun path => stem <+: path) arrivals
  have finish : offsetAfter (before stem arrivals ++ block stem arrivals) =
      Stack.startOf (arrivals.map Prod.fst) stem +
        Stack.widthOf (arrivals.map Prod.fst) stem := by
    rw [← start, ← width, offsetAfter_eq_sum, offsetAfter_eq_sum, offsetAfter_eq_sum,
      List.map_append, List.sum_append]
  rw [Node.extent, nodeOf, close, label_frameOf, start_frameOf begun, start, finish]
  rfl

end Merge
end FlameProfile
