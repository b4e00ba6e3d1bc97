import Mathlib
import FlameProfile.HotPath
import FlameProfile.Proofs.Arithmetic.Overflow
import FlameProfile.Proofs.Report.Difference

/-!
# Rankings

Stacks are ranked by their weights and compared frames by the sizes of their changes.
Both rankings compare numbers first, and values that are no numbers tie with
everything. So the rankings are total orders of the elements whose numbers are numbers,
infinite ones among them: they compare elements through keys in a linear order, and
what is sorted by them depends on the elements alone. With values that are no numbers
the rankings run in circles.
-/

namespace FlameProfile
namespace Sorting

/-! ## Comparing through a key -/

section Key

variable {Element Key : Type} [LinearOrder Key]

/-- On the elements of a kind, an order compares them through a key. -/
def ComparesBy
    (kind : Element -> Prop)
    (key : Element -> Key)
    (order : Element -> Element -> Ordering) : Prop :=
  ∀ {first second : Element}, kind first → kind second →
    order first second = compare (key first) (key second)

variable {kind : Element -> Prop} {key : Element -> Key}
  {order : Element -> Element -> Ordering} {elements : List Element}

namespace ComparesBy

/-- Sorting by keys puts the least keys first. -/
theorem pairwise_sort
    (compares : ComparesBy kind key order)
    (ofKind : ∀ element ∈ elements, kind element) :
    (sort order elements).Pairwise fun first second => key first ≤ key second := by
  have sorted := isSorted_sort (isWeak_compare key) elements
  rw [← sort_congr fun first isFirst second isSecond =>
    compares (ofKind first isFirst) (ofKind second isSecond)] at sorted
  apply sorted.imp
  intro first second notLess
  rwa [Ne, compare_lt_iff_lt, not_lt] at notLess

/-- What follows from the order of their keys holds of sorted elements of the kind. -/
theorem pairwise_sort_of
    (compares : ComparesBy kind key order)
    (ofKind : ∀ element ∈ elements, kind element)
    {relation : Element -> Element -> Prop}
    (follows : ∀ {first second : Element}, kind first → kind second →
      key first ≤ key second → relation first second) :
    (sort order elements).Pairwise fun first second =>
      relation first second ∧ order first second ≠ .gt := by
  have sortedOfKind : ∀ element ∈ sort order elements, kind element :=
    fun element member => ofKind element ((sort_perm order elements).mem_iff.mp member)
  refine (compares.pairwise_sort ofKind).imp_of_mem ?_
  intro first second isFirst isSecond below
  have firstKind := sortedOfKind first isFirst
  have secondKind := sortedOfKind second isSecond
  refine ⟨follows firstKind secondKind below, ?_⟩
  rwa [compares firstKind secondKind, compare_le_iff_le]

/-- Sorting by different keys puts lower keys before higher ones. -/
theorem pairwise_lt_sort
    (compares : ComparesBy kind key order)
    (ofKind : ∀ element ∈ elements, kind element)
    (distinct : (elements.map key).Nodup) :
    (sort order elements).Pairwise fun first second => key first < key second := by
  have different : ((sort order elements).map key).Nodup :=
    ((sort_perm order elements).map key).nodup_iff.mpr distinct
  refine ((compares.pairwise_sort ofKind).and (List.pairwise_map.mp different)).imp ?_
  rintro first second ⟨notAbove, notSame⟩
  exact lt_of_le_of_ne notAbove notSame

/-- Elements with different keys are sorted to the same list in whatever order they
come. -/
theorem sort_eq_of_perm
    (compares : ComparesBy kind key order)
    (ofKind : ∀ element ∈ elements, kind element)
    (distinct : (elements.map key).Nodup)
    {others : List Element}
    (perm : others.Perm elements) :
    sort order others = sort order elements := by
  have othersOfKind : ∀ element ∈ others, kind element :=
    fun element member => ofKind element (perm.mem_iff.mp member)
  have othersDistinct : (others.map key).Nodup := (perm.map key).nodup_iff.mpr distinct
  apply List.Pairwise.eq_of_mem_iff (compares.pairwise_lt_sort othersOfKind othersDistinct)
    (compares.pairwise_lt_sort ofKind distinct)
  intro element
  rw [(sort_perm order others).mem_iff, perm.mem_iff, (sort_perm order elements).mem_iff]

end ComparesBy
end Key

/-! ## Total orders of a kind -/

/-- On the elements of a kind, an order is total: swapping two elements turns it round,
it ties the elements that are the same to it and no others, and it is transitive. -/
structure IsTotalOn
    {Element : Type}
    (kind : Element -> Prop)
    (ties : Element -> Element -> Prop)
    (order : Element -> Element -> Ordering) : Prop where
  swap : ∀ {first second : Element}, kind first → kind second →
    (order first second).swap = order second first
  eq_iff : ∀ {first second : Element}, kind first → kind second →
    (order first second = .eq ↔ ties first second)
  trans : ∀ {first second third : Element}, kind first → kind second → kind third →
    order first second ≠ .gt → order second third ≠ .gt → order first third ≠ .gt

/-- An order that is total on the elements of a kind is total on fewer of them. -/
theorem IsTotalOn.mono
    {Element : Type}
    {kind narrower : Element -> Prop}
    {ties : Element -> Element -> Prop}
    {order : Element -> Element -> Ordering}
    (total : IsTotalOn kind ties order)
    (isOfKind : ∀ element, narrower element → kind element) :
    IsTotalOn narrower ties order where
  swap isFirst isSecond := total.swap (isOfKind _ isFirst) (isOfKind _ isSecond)
  eq_iff isFirst isSecond := total.eq_iff (isOfKind _ isFirst) (isOfKind _ isSecond)
  trans isFirst isSecond isThird :=
    total.trans (isOfKind _ isFirst) (isOfKind _ isSecond) (isOfKind _ isThird)

/-- An order that compares through keys is total, and ties what has the same key. -/
theorem ComparesBy.isTotalOn
    {Element Key : Type}
    [LinearOrder Key]
    {kind : Element -> Prop}
    {key : Element -> Key}
    {ties : Element -> Element -> Prop}
    {order : Element -> Element -> Ordering}
    (compares : ComparesBy kind key order)
    (sameKey : ∀ {first second : Element}, kind first → kind second →
      (key first = key second ↔ ties first second)) :
    IsTotalOn kind ties order where
  swap isFirst isSecond := by
    rw [compares isFirst isSecond, compares isSecond isFirst]
    exact Std.OrientedCmp.eq_swap.symm
  eq_iff isFirst isSecond := by
    rw [compares isFirst isSecond, compare_eq_iff_eq, sameKey isFirst isSecond]
  trans isFirst isSecond isThird firstBelow secondBelow := by
    rw [compares isFirst isSecond, compare_le_iff_le] at firstBelow
    rw [compares isSecond isThird, compare_le_iff_le] at secondBelow
    rw [compares isFirst isThird, compare_le_iff_le]
    exact firstBelow.trans secondBelow

end Sorting

/-! ## Comparing numbers -/

/-- Numbers are ordered by keys that are less and greater as the numbers are. -/
theorem Arithmetic.order_eq_compare
    {Number Key : Type}
    [Arithmetic Number]
    [LinearOrder Key]
    (key : Number -> Key)
    {first second : Number}
    (less_iff : key first < key second ↔ first < second)
    (greater_iff : key second < key first ↔ second < first) :
    order first second = compare (key first) (key second) := by
  rw [order]
  rcases lt_trichotomy (key first) (key second) with less | same | greater
  · rw [if_pos (less_iff.mp less), compare_lt_iff_lt.mpr less]
  · have notLess : ¬ first < second := fun less => (less_iff.mpr less).ne same
    have notGreater : ¬ second < first := fun greater => (greater_iff.mpr greater).ne same.symm
    rw [if_neg notLess, if_neg notGreater, compare_eq_iff_eq.mpr same]
  · have notLess : ¬ first < second := fun less => lt_asymm greater (less_iff.mpr less)
    rw [if_neg notLess, if_pos (greater_iff.mp greater), compare_gt_iff_gt.mpr greater]

namespace Floating

open Float.Model (UnpackedFloat)

variable {first second : Float}

/-- The place of a value in the order of numbers; a value that is no number stands
below all others. -/
def degreeOf (value : Float) : WithBot (Int ×ₗ Int ×ₗ Int) :=
  degree value.toModel.unpack

/-- Numbers are less and greater as their degrees are. -/
theorem degreeOf_lt_iff
    (firstNumber : first.isNaN = false)
    (secondNumber : second.isNaN = false) :
    degreeOf first < degreeOf second ↔ first < second := by
  obtain ⟨place, isPlace⟩ := (exists_degree_iff first).mpr firstNumber
  obtain ⟨other, isOther⟩ := (exists_degree_iff second).mpr secondNumber
  rw [lt_iff, degreeOf, degreeOf, isPlace, isOther]
  refine WithBot.coe_lt_coe.trans ?_
  simp

/-- Numbers are in order exactly if their degrees are. -/
theorem degreeOf_le_iff
    (firstNumber : first.isNaN = false)
    (secondNumber : second.isNaN = false) :
    degreeOf first ≤ degreeOf second ↔ first ≤ second := by
  rw [← not_lt, degreeOf_lt_iff secondNumber firstNumber]
  refine ⟨le_of_not_lt secondNumber firstNumber, ?_⟩
  intro below above
  exact OrderedArithmetic.lt_irrefl first (lt_of_le_of_lt below above)

/-- Numbers are ordered by their degrees. -/
theorem order_eq_compare
    (firstNumber : first.isNaN = false)
    (secondNumber : second.isNaN = false) :
    Arithmetic.order first second = compare (degreeOf first) (degreeOf second) :=
  Arithmetic.order_eq_compare degreeOf (degreeOf_lt_iff firstNumber secondNumber)
    (degreeOf_lt_iff secondNumber firstNumber)

/-- Numbers have the same degree exactly if each is at most the other. -/
theorem degreeOf_eq_iff
    (firstNumber : first.isNaN = false)
    (secondNumber : second.isNaN = false) :
    degreeOf first = degreeOf second ↔ first ≤ second ∧ second ≤ first := by
  rw [← degreeOf_le_iff firstNumber secondNumber, ← degreeOf_le_iff secondNumber firstNumber,
    le_antisymm_iff]

/-- The size of a number is a number. -/
theorem isNaN_magnitude
    {value : Float}
    (number : value.isNaN = false) :
    (Arithmetic.magnitude value).isNaN = false := by
  rw [Arithmetic.magnitude]
  split
  next =>
    apply isNaN_unpack_pack
    change value.toModel.unpack.isNaN = false at number
    cases shape : value.toModel.unpack with
    | notANumber =>
        rw [shape] at number
        exact absurd number (by decide)
    | infinity | zero | finite => rfl
  next => exact number

end Floating

/-! ## Ranking stacks -/

namespace Stack

open Floating (degreeOf)

/-- A stack with a number as its weight. -/
def IsWeighed (stack : Stack Float) : Prop :=
  stack.weight.isNaN = false

/-- What stacks are ranked by: first a great weight, then a low path. -/
def rankKey (stack : Stack Float) : (WithBot (Int ×ₗ Int ×ₗ Int))ᵒᵈ ×ₗ List String :=
  toLex (OrderDual.toDual (degreeOf stack.weight), stack.path)

/-- Stacks with numbers as weights are ranked through their keys. -/
theorem weightOrder_comparesBy : Sorting.ComparesBy IsWeighed rankKey weightOrder := by
  intro first second firstWeighed secondWeighed
  rw [weightOrder, Floating.order_eq_compare secondWeighed firstWeighed, ← compare_eq_pathOrder]
  rfl

/-- Stacks that differ in nothing that they are ranked by. -/
def TiesWith (first second : Stack Float) : Prop :=
  (first.weight ≤ second.weight ∧ second.weight ≤ first.weight) ∧ first.path = second.path

/-- Stacks have the same key exactly if they tie. -/
theorem rankKey_eq_iff
    {first second : Stack Float}
    (firstWeighed : first.IsWeighed)
    (secondWeighed : second.IsWeighed) :
    first.rankKey = second.rankKey ↔ first.TiesWith second := by
  rw [rankKey, rankKey, TiesWith, ← Floating.degreeOf_eq_iff firstWeighed secondWeighed]
  simp

/-- The lower of two keys has the greater weight. -/
theorem le_of_rankKey_le
    {first second : Stack Float}
    (firstWeighed : first.IsWeighed)
    (secondWeighed : second.IsWeighed)
    (below : first.rankKey ≤ second.rankKey) :
    second.weight ≤ first.weight :=
  (Floating.degreeOf_le_iff secondWeighed firstWeighed).mp
    (OrderDual.toDual_le_toDual.mp (Prod.Lex.monotone_fst _ _ below))

/-- Stacks with different paths are ranked by different keys. -/
theorem nodup_rankKey
    {collapsed : List (Stack Float)}
    (distinct : (collapsed.map path).Nodup) :
    (collapsed.map rankKey).Nodup := by
  refine List.Nodup.of_map (fun key => (ofLex key).2) ?_
  rw [List.map_map]
  exact distinct

end Stack

/-! ## Ranking compared frames -/

namespace Comparison

open Floating (degreeOf)

/-- A compared frame with a number as the change of its width. -/
def IsMeasured (frame : Comparison Float) : Prop :=
  frame.delta.isNaN = false

/-- What compared frames are ranked by: first a great change, then a low depth, then a
low label. -/
def rankKey (frame : Comparison Float) : (WithBot (Int ×ₗ Int ×ₗ Int))ᵒᵈ ×ₗ Nat ×ₗ String :=
  toLex (OrderDual.toDual (degreeOf (Arithmetic.magnitude frame.delta)),
    toLex (frame.depth, frame.label))

/-- Frames with numbers as changes are ranked through their keys. -/
theorem order_comparesBy : Sorting.ComparesBy IsMeasured rankKey order := by
  intro first second firstMeasured secondMeasured
  rw [order, Floating.order_eq_compare (Floating.isNaN_magnitude secondMeasured)
    (Floating.isNaN_magnitude firstMeasured)]
  rfl

/-- Compared frames that differ in nothing that they are ranked by. -/
def TiesWith (first second : Comparison Float) : Prop :=
  (Arithmetic.magnitude first.delta ≤ Arithmetic.magnitude second.delta ∧
    Arithmetic.magnitude second.delta ≤ Arithmetic.magnitude first.delta) ∧
  first.depth = second.depth ∧ first.label = second.label

/-- Compared frames have the same key exactly if they tie. -/
theorem rankKey_eq_iff
    {first second : Comparison Float}
    (firstMeasured : first.IsMeasured)
    (secondMeasured : second.IsMeasured) :
    first.rankKey = second.rankKey ↔ first.TiesWith second := by
  rw [rankKey, rankKey, TiesWith, ← Floating.degreeOf_eq_iff
    (Floating.isNaN_magnitude firstMeasured) (Floating.isNaN_magnitude secondMeasured)]
  simp

/-- The lower of two keys has the greater change. -/
theorem magnitude_le_of_rankKey_le
    {first second : Comparison Float}
    (firstMeasured : first.IsMeasured)
    (secondMeasured : second.IsMeasured)
    (below : first.rankKey ≤ second.rankKey) :
    Arithmetic.magnitude second.delta ≤ Arithmetic.magnitude first.delta :=
  (Floating.degreeOf_le_iff (Floating.isNaN_magnitude secondMeasured)
    (Floating.isNaN_magnitude firstMeasured)).mp
      (OrderDual.toDual_le_toDual.mp (Prod.Lex.monotone_fst _ _ below))

/-- The compared frames of two trees come out of sorting. -/
theorem exists_ofTrees_eq_sort (before after : Tree Float) :
    ∃ frames, ofTrees before after = Sorting.sort order frames :=
  ⟨_, rfl⟩

/-- Different frames of a comparison are ranked by different keys. -/
theorem nodup_rankKey_ofTrees (before after : Tree Float) :
    ((ofTrees before after).map rankKey).Nodup :=
  nodup_map_ofTrees (fun key => ((ofLex (ofLex key).2).2, (ofLex (ofLex key).2).1))
    (fun _ => rfl) before after

variable {before after : Tree Float}

/-- The compared frames of two trees are sorted, those with the greatest changes first. -/
theorem pairwise_ofTrees
    (measured : ∀ frame ∈ ofTrees before after, frame.IsMeasured) :
    (ofTrees before after).Pairwise fun first second =>
      Arithmetic.magnitude second.delta ≤ Arithmetic.magnitude first.delta ∧
        order first second ≠ .gt := by
  obtain ⟨frames, arranged⟩ := exists_ofTrees_eq_sort before after
  rw [arranged] at measured ⊢
  refine order_comparesBy.pairwise_sort_of ?_ magnitude_le_of_rankKey_le
  exact fun frame member => measured frame ((Sorting.sort_perm order frames).mem_iff.mpr member)

/-- The frames of two trees are listed in one order however they were gathered. -/
theorem sort_eq_ofTrees
    (measured : ∀ frame ∈ ofTrees before after, frame.IsMeasured)
    {gathered : List (Comparison Float)}
    (perm : gathered.Perm (ofTrees before after)) :
    Sorting.sort order gathered = ofTrees before after := by
  obtain ⟨frames, arranged⟩ := exists_ofTrees_eq_sort before after
  have distinct := nodup_rankKey_ofTrees before after
  have isPerm : frames.Perm (ofTrees before after) :=
    arranged ▸ (Sorting.sort_perm order frames).symm
  rw [order_comparesBy.sort_eq_of_perm measured distinct perm,
    ← order_comparesBy.sort_eq_of_perm measured distinct isPerm, arranged]

end Comparison

/-! ## The rankings are total on numbers -/

namespace Ranking

/-- Stacks whose weights are numbers are totally ordered, also where they are infinite.
They are sorted with the heaviest first and, if their paths are different, to one list
in whatever order they come. So are the compared frames of two trees if their changes
are numbers, with the greatest changes first, in whatever order they were gathered. -/
theorem areTotal
    {collapsed : List (Stack Float)}
    {before after : Tree Float}
    (weighed : ∀ stack ∈ collapsed, stack.weight.isNaN = false)
    (measured : ∀ frame ∈ Comparison.ofTrees before after, frame.delta.isNaN = false) :
    Sorting.IsTotalOn (· ∈ collapsed) Stack.TiesWith Stack.weightOrder ∧
    (Stack.sortByWeight collapsed).Pairwise (fun first second =>
      second.weight ≤ first.weight ∧ Stack.weightOrder first second ≠ .gt) ∧
    (∀ others, others.Perm collapsed → (collapsed.map Stack.path).Nodup →
      Stack.sortByWeight others = Stack.sortByWeight collapsed) ∧
    Sorting.IsTotalOn (· ∈ Comparison.ofTrees before after)
      Comparison.TiesWith Comparison.order ∧
    (Comparison.ofTrees before after).Pairwise (fun first second =>
      Arithmetic.magnitude second.delta ≤ Arithmetic.magnitude first.delta ∧
        Comparison.order first second ≠ .gt) ∧
    ∀ gathered, gathered.Perm (Comparison.ofTrees before after) →
      Sorting.sort Comparison.order gathered = Comparison.ofTrees before after := by
  refine ⟨?_, ?_, ?_, ?_, Comparison.pairwise_ofTrees measured,
    fun gathered perm => Comparison.sort_eq_ofTrees measured perm⟩
  · exact (Stack.weightOrder_comparesBy.isTotalOn Stack.rankKey_eq_iff).mono weighed
  · exact Stack.weightOrder_comparesBy.pairwise_sort_of weighed Stack.le_of_rankKey_le
  · intro others perm distinct
    exact Stack.weightOrder_comparesBy.sort_eq_of_perm weighed (Stack.nodup_rankKey distinct) perm
  · exact (Comparison.order_comparesBy.isTotalOn Comparison.rankKey_eq_iff).mono measured

/-- Stacks of which two have infinite weights, one of them below zero. -/
def infiniteStacks : List (Stack Float) :=
  [ ⟨["", "a"], -Float.inf, 1, false⟩, ⟨["", "b"], 1, 1, false⟩, ⟨["", "c"], Float.inf, 1, false⟩
  , ⟨["", "d"], 1, 1, false⟩ ]

/-- A tree with a frame that never ends. -/
def infiniteTree : Tree Float where
  nodes := [⟨"a", 1, some 0, 1, 1, false, none⟩, ⟨"b", 1, some 1, Float.inf, 1, false, none⟩]
  total := Float.inf

theorem areTotal_infiniteStacks :
    (∀ stack ∈ infiniteStacks, stack.weight.isNaN = false) ∧
    (∀ frame ∈ Comparison.ofTrees ⟨[], 0⟩ infiniteTree, frame.delta.isNaN = false) ∧
    Sorting.IsTotalOn (· ∈ infiniteStacks) Stack.TiesWith Stack.weightOrder ∧
    Stack.sortByWeight infiniteStacks.reverse = Stack.sortByWeight infiniteStacks ∧
    Sorting.sort Comparison.order (Comparison.ofTrees ⟨[], 0⟩ infiniteTree).reverse =
      Comparison.ofTrees ⟨[], 0⟩ infiniteTree := by
  have weighed : ∀ stack ∈ infiniteStacks, stack.weight.isNaN = false := by decide +kernel
  have measured : ∀ frame ∈ Comparison.ofTrees ⟨[], 0⟩ infiniteTree,
      frame.delta.isNaN = false := by
    decide +kernel
  have distinct : (infiniteStacks.map Stack.path).Nodup := by decide
  obtain ⟨total, _, sortedAlike, _, _, listedAlike⟩ := areTotal weighed measured
  exact ⟨weighed, measured, total, sortedAlike _ (List.reverse_perm _) distinct,
    listedAlike _ (List.reverse_perm _)⟩

/-- A tree whose second frame starts and ends at infinity. -/
def circularTree : Tree Float where
  nodes :=
    [ ⟨"a", 1, some 0, 1, 1, false, none⟩, ⟨"b", 1, some Float.inf, Float.inf, 1, false, none⟩
    , ⟨"c", 1, some 0, 2, 1, false, none⟩ ]
  total := 2

/-- Among values that are no numbers both rankings run in circles: what is sorted
depends on how it came, and the heaviest stack and the greatest change can come last. -/
theorem exists_circle :
    (∃ light other heavy : Stack Float, light.weight < heavy.weight ∧
      Stack.weightOrder light other = .lt ∧ Stack.weightOrder other heavy = .lt ∧
      Stack.weightOrder heavy light = .lt ∧
      Stack.sortByWeight [light, other, heavy] = [light, other, heavy] ∧
      Stack.sortByWeight [heavy, other, light] = [other, heavy, light]) ∧
    ∃ small other great : Comparison Float,
      Arithmetic.magnitude small.delta < Arithmetic.magnitude great.delta ∧
      Comparison.order small other = .lt ∧ Comparison.order other great = .lt ∧
      Comparison.order great small = .lt ∧
      Comparison.ofTrees ⟨[], 0⟩ circularTree = [small, other, great] ∧
      Sorting.sort Comparison.order [great, other, small] = [other, great, small] := by
  refine ⟨⟨⟨["", "a"], 1, 1, false⟩, ⟨["", "b"], 0 / 0, 1, false⟩, ⟨["", "c"], 2, 1, false⟩, ?_⟩,
    ⟨"a", 1, 0, 0 + 1⟩, ⟨"b", 1, 0, 0 + (Float.inf - Float.inf)⟩, ⟨"c", 1, 0, 0 + 2⟩, ?_⟩
  · decide +kernel
  · decide +kernel

end Ranking
end FlameProfile
