import Mathlib
import FlameProfile.Proofs.Arithmetic.Comparison
import FlameProfile.Proofs.Drawing.Units
import FlameProfile.Proofs.Result
import FlameProfile.Proofs.Tree.Merging

/-!
# The one fault of drawing

Of the three ways in which drawing can fail only one is ever taken. What is merged has been
sorted, so no path arrives unsorted; every frame of a merged tree has a start, so none is
missing; what remains is a tree without a positive and finite weight.
-/

namespace FlameProfile

namespace Layout

variable {Number : Type} [Arithmetic Number] [NumberText Number]

/-- A tree whose starts are known has a layout unless its total is no positive finite
number. -/
theorem ofTree_eq_error_iff
    (canvas : Canvas Number)
    {tree : Tree Number}
    (started : ∀ node ∈ tree.nodes, node.start ≠ none)
    (total : Number)
    (fault : LayoutFault Number) :
    ofTree canvas tree total = .error fault ↔
      fault = .emptyLog ∧ (total ≤ 0 ∨ Arithmetic.isFinite total = false) := by
  have exist : ∃ all, extents total tree.nodes = .ok all := exists_extents started
  obtain ⟨all, found⟩ := exist
  rw [ofTree]
  split
  next undrawable => rw [and_iff_left undrawable, Except.error.injEq, eq_comm]
  next drawable =>
    rw [found]
    refine iff_of_false (fun impossible => ?_) fun weightless => drawable weightless.2
    cases impossible

end Layout

/-! ## Pictures of trees -/

theorem Floating.not_weighs_iff (total : Float) :
    (total ≤ 0 ∨ total.isFinite = false) ↔ ¬ (0 < total ∧ total.isFinite = true) := by
  have zeroNumber : (0 : Float).isNaN = false := by decide +kernel
  rw [not_and_or, Bool.not_eq_true]
  constructor
  · rintro (negative | infinite)
    · refine .inl fun positive => ?_
      exact OrderedArithmetic.lt_irrefl _ (Floating.lt_of_lt_of_le positive negative)
    · exact .inr infinite
  · rintro (notPositive | infinite)
    · cases finite : total.isFinite with
      | false => exact .inr rfl
      | true =>
          exact .inl (Floating.le_of_not_lt zeroNumber (Floating.isNaN_of_isFinite finite)
            notPositive)
    · exact .inr infinite

namespace Picture

/-- A tree that is made of stacks has a picture unless it weighs nothing. -/
theorem ofTree_eq_error_iff
    {tree : Tree Float}
    {collapsed : List (Stack Float)}
    (madeOf : tree.IsMadeOf collapsed)
    (options : DrawingOptions Float)
    (fault : LayoutFault Float) :
    ofTree options tree = .error fault ↔
      fault = .emptyLog ∧ ¬ (0 < tree.total ∧ tree.total.isFinite = true) := by
  rw [ofTree, Result.map_eq_error_iff, Layout.ofTree_eq_error_iff _ madeOf.started,
    ← Floating.not_weighs_iff]
  rfl

theorem ofDifference_eq_error_iff
    {tree : Tree Float}
    {collapsed : List (Stack Float)}
    (madeOf : tree.IsMadeOf collapsed)
    (options : DrawingOptions Float)
    (fault : LayoutFault Float) :
    ofDifference options tree = .error fault ↔
      fault = .emptyLog ∧ ¬ (0 < tree.total ∧ tree.total.isFinite = true) := by
  rw [ofDifference, Result.map_eq_error_iff, Layout.ofTree_eq_error_iff _ madeOf.started,
    ← Floating.not_weighs_iff]
  rfl

/-- Whatever stacks there are, in whatever order and with whatever weights, one list of them
is merged to a tree, and so are two. Every frame of the trees has a start. Whatever options
are asked for, a picture of a tree fails only for want of weight, and exactly if the total
of the tree is not positive or not finite. -/
theorem emptyLog_only_fault (baseline target : List (Stack Float)) :
    (∃ tree, Tree.ofStacks target = .ok tree ∧
      (∀ node ∈ tree.nodes, node.start ≠ none) ∧
      ∀ options fault, ofTree options tree = .error fault ↔
        fault = .emptyLog ∧ ¬ (0 < tree.total ∧ tree.total.isFinite = true)) ∧
    (∃ tree, Tree.difference baseline target = .ok tree ∧
      (∀ node ∈ tree.nodes, node.start ≠ none) ∧
      ∀ options fault, ofStackDifference options baseline target = .error fault ↔
        fault = .layout .emptyLog ∧ ¬ (0 < tree.total ∧ tree.total.isFinite = true)) := by
  constructor
  · obtain ⟨tree, merged, -, madeOf⟩ := Tree.exists_ofStacks target
    exact ⟨tree, merged, madeOf.started, ofTree_eq_error_iff madeOf⟩
  · obtain ⟨tree, merged, -, madeOf⟩ := Tree.exists_difference baseline target
    refine ⟨tree, merged, madeOf.started, fun options fault => ?_⟩
    have only := ofDifference_eq_error_iff madeOf options
    rw [ofStackDifference, merged]
    simp only [Result.mapError_eq_error_iff]
    constructor
    · rintro ⟨refused, drawn, rfl⟩
      obtain ⟨rfl, weightless⟩ := (only refused).mp drawn
      exact ⟨rfl, weightless⟩
    · rintro ⟨rfl, weightless⟩
      exact ⟨.emptyLog, (only .emptyLog).mpr ⟨rfl, weightless⟩, rfl⟩

end Picture
end FlameProfile
