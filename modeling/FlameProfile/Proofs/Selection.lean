import Mathlib
import FlameProfile.Proofs.Ranking

/-!
# Selections by weight

What is chosen from a list is told by its positions, so that of equal elements each counts
for itself. A list is sorted by sorting its positions; those whose elements tie stay in
their order. The first positions of a list that is ranked by falling weight are a heaviest
selection: no position left out weighs more than one chosen. By exchanging positions such a
selection weighs the most of all that have its size, and at least its part of the whole.
-/

namespace FlameProfile
namespace Sorting

/-! ## Sorted positions -/

section Positions

variable {Element Key : Type} [LinearOrder Key]
  {kind : Element -> Prop} {key : Element -> Key} {order : Element -> Element -> Ordering}

/-- The positions of a list in the order of the elements at them. -/
def positions
    (order : Element -> Element -> Ordering)
    (elements : List Element) : List (Fin elements.length) :=
  sort (fun first second => order (elements.get first) (elements.get second))
    (List.finRange elements.length)

/-- A list is sorted by sorting its positions. -/
@[simp] theorem map_get_positions
    (order : Element -> Element -> Ordering)
    (elements : List Element) :
    (positions order elements).map elements.get = sort order elements := by
  rw [positions, map_sort, List.map_get_finRange]

theorem positions_perm
    (order : Element -> Element -> Ordering)
    (elements : List Element) :
    (positions order elements).Perm (List.finRange elements.length) :=
  sort_perm _ _

@[simp] theorem length_positions
    (order : Element -> Element -> Ordering)
    (elements : List Element) :
    (positions order elements).length = elements.length := by
  rw [(positions_perm order elements).length_eq, List.length_finRange]

theorem nodup_positions
    (order : Element -> Element -> Ordering)
    (elements : List Element) :
    (positions order elements).Nodup :=
  (positions_perm order elements).nodup_iff.mpr (List.nodup_finRange _)

@[simp] theorem mem_positions
    {elements : List Element}
    (position : Fin elements.length) :
    position ∈ positions order elements :=
  (positions_perm order elements).mem_iff.mpr (List.mem_finRange position)

/-- Elements with the same key keep the relation in which they came. -/
theorem ComparesBy.pairwise_tied
    (compares : ComparesBy kind key order)
    {elements : List Element}
    (ofKind : ∀ element, kind element)
    {relation : Element -> Element -> Prop}
    (came : elements.Pairwise relation) :
    (sort order elements).Pairwise fun first second =>
      key first = key second → relation first second := by
  rw [List.pairwise_iff_forall_sublist]
  intro first second inOrder same
  have ties : ∀ one other, decide (key one = key first) = true →
      decide (key other = key first) = true → order one other ≠ .lt := by
    intro one other oneTied otherTied
    rw [compares (ofKind one) (ofKind other), Ne, compare_lt_iff_lt,
      of_decide_eq_true oneTied, of_decide_eq_true otherTied]
    exact lt_irrefl _
  -- Among the elements that tie with the two, sorting has changed nothing.
  have tied := inOrder.filter fun element => decide (key element = key first)
  rw [filter_sort ties, List.filter_cons_of_pos (by simp), List.filter_cons_of_pos (by simp [same]),
    List.filter_nil] at tied
  exact List.pairwise_iff_forall_sublist.mp came (tied.trans List.filter_sublist)

/-- Positions are sorted by the keys of their elements, those with the same key by
themselves. -/
theorem ComparesBy.pairwise_positions
    (compares : ComparesBy kind key order)
    (elements : List Element)
    (ofKind : ∀ element, kind element) :
    (positions order elements).Pairwise fun first second =>
      key (elements.get first) < key (elements.get second) ∨
        key (elements.get first) = key (elements.get second) ∧ first < second := by
  have comparesPositions : ComparesBy (fun _ : Fin elements.length => True)
      (fun position => key (elements.get position))
      (fun first second => order (elements.get first) (elements.get second)) :=
    fun _ _ => compares (ofKind _) (ofKind _)
  have everywhere : ∀ position ∈ List.finRange elements.length, True := fun _ _ => trivial
  have sorted := comparesPositions.pairwise_sort everywhere
  have tied := comparesPositions.pairwise_tied (fun _ => trivial)
    (List.pairwise_lt_finRange elements.length)
  refine (sorted.and tied).imp ?_
  rintro first second ⟨notAbove, tied⟩
  exact notAbove.lt_or_eq.imp_right fun same => ⟨same, tied same⟩

end Positions
end Sorting

/-! ## Heaviest selections -/

/-- No position left out of a selection weighs more than one in it. -/
def IsHeaviest
    {Position : Type}
    (weight : Position -> Rat)
    (chosen : Finset Position) : Prop :=
  ∀ inside ∈ chosen, ∀ outside ∉ chosen, weight outside ≤ weight inside

/-- The first ones of all positions by falling weight are a heaviest selection. -/
theorem isHeaviest_take
    {Position : Type}
    [DecidableEq Position]
    {weight : Position -> Rat}
    {ranked : List Position}
    (complete : ∀ position, position ∈ ranked)
    (falling : ranked.Pairwise fun first second => weight second ≤ weight first)
    (count : Nat) :
    IsHeaviest weight (ranked.take count).toFinset := by
  intro inside isChosen outside isLeft
  rw [List.mem_toFinset] at isChosen isLeft
  rw [← List.take_append_drop count ranked, List.pairwise_append] at falling
  have isLater : outside ∈ ranked.drop count := by
    have either := complete outside
    rw [← List.take_append_drop count ranked, List.mem_append] at either
    exact either.resolve_left isLeft
  exact falling.2.2 inside isChosen outside isLater

namespace IsHeaviest

variable {Position : Type} {weight : Position -> Rat} {chosen : Finset Position}

/-- On average positions of a heaviest selection weigh no less than positions left out. -/
theorem card_mul_sum_le
    (heaviest : IsHeaviest weight chosen)
    {inside outside : Finset Position}
    (isChosen : inside ⊆ chosen)
    (isLeft : ∀ position ∈ outside, position ∉ chosen) :
    (inside.card : Rat) * ∑ position ∈ outside, weight position ≤
      outside.card * ∑ position ∈ inside, weight position := by
  calc (inside.card : Rat) * ∑ position ∈ outside, weight position
    _ = ∑ _ ∈ inside, ∑ other ∈ outside, weight other := by
      rw [Finset.sum_const, nsmul_eq_mul]
    _ ≤ ∑ position ∈ inside, ∑ _ ∈ outside, weight position := by
      refine Finset.sum_le_sum fun position member => Finset.sum_le_sum fun other isOther => ?_
      exact heaviest position (isChosen member) other (isLeft other isOther)
    _ = outside.card * ∑ position ∈ inside, weight position := by
      simp only [Finset.sum_const, nsmul_eq_mul, Finset.mul_sum]

/-- A heaviest selection weighs at least as much as any other of its size. -/
theorem sum_le_sum
    [DecidableEq Position]
    (heaviest : IsHeaviest weight chosen)
    {others : Finset Position}
    (sameSize : others.card = chosen.card) :
    ∑ position ∈ others, weight position ≤ ∑ position ∈ chosen, weight position := by
  rw [← Finset.sum_sdiff_le_sum_sdiff]
  have exchanged : ((chosen \ others).card : Rat) * ∑ position ∈ others \ chosen, weight position ≤
      (others \ chosen).card * ∑ position ∈ chosen \ others, weight position :=
    heaviest.card_mul_sum_le Finset.sdiff_subset fun _ member => (Finset.mem_sdiff.mp member).2
  rw [Finset.card_sdiff_comm sameSize] at exchanged
  rcases (chosen \ others).eq_empty_or_nonempty with none | some
  · -- Nothing is left out of the others, so nothing is added by them either.
    have noOther : others \ chosen = ∅ := by
      rw [← Finset.card_eq_zero, Finset.card_sdiff_comm sameSize, none, Finset.card_empty]
    rw [none, noOther]
  · exact le_of_mul_le_mul_left exchanged (Nat.cast_pos.mpr some.card_pos)

/-- A heaviest selection weighs at least its part of the whole. -/
theorem card_mul_sum_univ_le
    [Fintype Position]
    [DecidableEq Position]
    (heaviest : IsHeaviest weight chosen) :
    (chosen.card : Rat) * ∑ position, weight position ≤
      Fintype.card Position * ∑ position ∈ chosen, weight position := by
  have onAverage : (chosen.card : Rat) * ∑ position ∈ chosenᶜ, weight position ≤
      (chosenᶜ).card * ∑ position ∈ chosen, weight position :=
    heaviest.card_mul_sum_le subset_rfl fun _ => Finset.mem_compl.mp
  rw [← Finset.sum_add_sum_compl chosen weight, ← Finset.card_add_card_compl chosen,
    Nat.cast_add, mul_add, add_mul]
  exact add_le_add_right onAverage _

end IsHeaviest
end FlameProfile
