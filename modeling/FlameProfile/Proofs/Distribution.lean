import Mathlib
import FlameProfile.Distribution
import FlameProfile.Proofs.HotPath

/-!
# Order statistics of stacks

In exact arithmetic the figures of a distribution are what their names say, whatever the
order of the stacks: the mean is the total divided evenly, the median is a weight with half
of the weights on either side of it, and the share of the heaviest tenth is the greatest
that any tenth of the stacks has, so at least a tenth of the whole.
-/

namespace FlameProfile

namespace Distribution

/-! ## Ascending lists -/

section Counting

variable {values : List Rat} {place : Nat}

/-- The values up to a place, the one at it among them, are at most that one. -/
theorem succ_le_countP_getElem
    (sorted : values.SortedLE)
    (inside : place < values.length) :
    place + 1 ≤ values.countP (· ≤ values[place]) := by
  have leading : ∀ value ∈ values.take (place + 1), decide (value ≤ values[place]) = true := by
    intro value member
    obtain ⟨earlier, bounded, rfl⟩ := List.mem_take_iff_getElem.mp member
    exact decide_eq_true (sorted.getElem_le_getElem_of_le (by omega))
  calc place + 1
    _ = (values.take (place + 1)).length := by rw [List.length_take_of_le inside]
    _ = (values.take (place + 1)).countP (· ≤ values[place]) :=
      (List.countP_eq_length.mpr leading).symm
    _ ≤ values.countP (· ≤ values[place]) := (List.take_sublist _ _).countP_le

/-- The values from a place on are at least the one at it. -/
theorem length_sub_le_countP_getElem
    (sorted : values.SortedLE)
    (inside : place < values.length) :
    values.length - place ≤ values.countP (values[place] ≤ ·) := by
  have following : ∀ value ∈ values.drop place, decide (values[place] ≤ value) = true := by
    intro value member
    obtain ⟨later, bounded, rfl⟩ := List.mem_drop_iff_getElem.mp member
    exact decide_eq_true (sorted.getElem_le_getElem_of_le (by omega))
  calc values.length - place
    _ = (values.drop place).length := List.length_drop.symm
    _ = (values.drop place).countP (values[place] ≤ ·) :=
      (List.countP_eq_length.mpr following).symm
    _ ≤ values.countP (values[place] ≤ ·) := (List.drop_sublist _ _).countP_le

end Counting

/-! ## Weights in ascending order -/

/-- Exact numbers are ranked as they compare. -/
theorem rank_comparesBy : Sorting.ComparesBy (fun _ : Rat => True) id Arithmetic.rank :=
  fun _ _ => Arithmetic.rank_eq_compare _ _

/-- The weights of stacks in ascending order. -/
def ascending (collapsed : List (Stack Rat)) : List Rat :=
  Sorting.sort Arithmetic.rank (collapsed.map Stack.weight)

variable {collapsed : List (Stack Rat)}

/-- Sorting loses no weight and adds none. -/
theorem ascending_perm (collapsed : List (Stack Rat)) :
    (ascending collapsed).Perm (collapsed.map Stack.weight) :=
  Sorting.sort_perm _ _

/-- Each weight is at most those behind it. -/
theorem pairwise_ascending (collapsed : List (Stack Rat)) :
    (ascending collapsed).Pairwise (· ≤ ·) :=
  rank_comparesBy.pairwise_sort fun _ _ => trivial

/-- There are as many sorted weights as stacks. -/
@[simp] theorem length_ascending (collapsed : List (Stack Rat)) :
    (ascending collapsed).length = collapsed.length := by
  rw [(ascending_perm collapsed).length_eq, List.length_map]

/-- The positions of stacks, the heaviest first. -/
def ranked (collapsed : List (Stack Rat)) : List (Fin collapsed.length) :=
  (Sorting.positions (fun first second => Arithmetic.rank first.weight second.weight)
    collapsed).reverse

/-- From the heaviest stack on, the weights are the ascending ones backwards. -/
theorem map_ranked (collapsed : List (Stack Rat)) :
    (ranked collapsed).map (fun position => (collapsed.get position).weight) =
      (ascending collapsed).reverse := by
  rw [ascending, ← Sorting.map_sort, ← Sorting.map_get_positions, ranked, List.map_reverse,
    List.map_map]
  rfl

/-- No stack is heavier than one ranked before it. -/
theorem falling_ranked (collapsed : List (Stack Rat)) :
    (ranked collapsed).Pairwise fun first second =>
      (collapsed.get second).weight ≤ (collapsed.get first).weight := by
  have falling := List.pairwise_reverse.mpr (pairwise_ascending collapsed)
  rwa [← map_ranked, List.pairwise_map] at falling

/-! ## Figures in exact arithmetic -/

/-- Number of stacks that make up a tenth, rounded up. -/
def tenthOf (count : Nat) : Nat :=
  ⌈(count : Rat) / 10⌉₊

/-- A tenth of a count, rounded up, is the same by the decimal fraction as by division. -/
theorem ceiling_tenth (count : Nat) :
    Arithmetic.ceiling (Arithmetic.ofCount count * (0.1 : Rat)) = tenthOf count := by
  have part : (Arithmetic.ofCount count * (0.1 : Rat) : Rat) = (count : Rat) / 10 := by
    have tenth : (0.1 : Rat) = 1 / 10 := by norm_num
    change (count : Rat) * 0.1 = _
    rw [tenth]
    ring
  have ceiling : ((count : Rat) / 10).ceil = ⌈(count : Rat) / 10⌉ := Rat.ceil_eq_neg_floor_neg _
  rw [part, tenthOf, ← Int.ceil_toNat, ← ceiling]
  rfl

/-- A tenth of the stacks is not more than all of them. -/
theorem tenthOf_le (count : Nat) : tenthOf count ≤ count := by
  rw [tenthOf, Nat.ceil_le]
  exact div_le_self count.cast_nonneg (by norm_num)

/-- The figures of some stacks, by their ascending weights. -/
theorem ofStacks_eq (nonempty : collapsed ≠ []) :
    ofStacks collapsed =
      { total := (collapsed.map Stack.weight).sum
        count := collapsed.length
        mean := (collapsed.map Stack.weight).sum / collapsed.length
        median := ((ascending collapsed)[collapsed.length / 2]?).getD 0
        topTenth :=
          HotPath.percentageOf ((ascending collapsed).reverse.take (tenthOf collapsed.length)).sum
            (collapsed.map Stack.weight).sum
        failed := collapsed.countP Stack.failed } := by
  rw [ofStacks, ← ceiling_tenth, ← Arithmetic.sum_eq_sum, ← Arithmetic.sum_eq_sum]
  · rfl
  · exact nonempty

/-- The figures do not depend on the order of the stacks. -/
theorem ofStacks_eq_of_perm
    {others : List (Stack Rat)}
    (perm : others.Perm collapsed) :
    ofStacks others = ofStacks collapsed := by
  rcases eq_or_ne collapsed [] with rfl | nonempty
  · rw [perm.eq_nil]
  · have sameOrder : ascending others = ascending collapsed := by
      apply List.Perm.eq_of_pairwise' (pairwise_ascending others) (pairwise_ascending collapsed)
      exact (ascending_perm others).trans ((perm.map _).trans (ascending_perm collapsed).symm)
    have othersNonempty : others ≠ [] := by
      rintro rfl
      exact nonempty perm.symm.eq_nil
    rw [ofStacks_eq nonempty, ofStacks_eq othersNonempty, sameOrder, (perm.map _).sum_eq,
      perm.length_eq, perm.countP_eq]

/-- A median of weights is one of them, with half of them at most as great, its own half
among them, and half of them at least as great. -/
structure IsMedian
    (weights : List Rat)
    (median : Rat) : Prop where
  mem : median ∈ weights
  lower : weights.length / 2 + 1 ≤ weights.countP (· ≤ median)
  upper : weights.length - weights.length / 2 ≤ weights.countP (median ≤ ·)

/-- The median of some stacks is a median of their weights. -/
theorem isMedian_ofStacks (nonempty : collapsed ≠ []) :
    IsMedian (collapsed.map Stack.weight) (ofStacks collapsed).median := by
  have inside : collapsed.length / 2 < (ascending collapsed).length := by
    rw [length_ascending]
    exact Nat.div_lt_self (List.length_pos_of_ne_nil nonempty) one_lt_two
  have median : (ofStacks collapsed).median = (ascending collapsed)[collapsed.length / 2] := by
    rw [ofStacks_eq nonempty, List.getElem?_eq_getElem inside]
    rfl
  have sorted := (pairwise_ascending collapsed).sortedLE
  rw [median]
  constructor
  case mem => exact (ascending_perm collapsed).mem_iff.mp (List.getElem_mem inside)
  case lower =>
    rw [← (ascending_perm collapsed).countP_eq, List.length_map]
    exact succ_le_countP_getElem sorted inside
  case upper =>
    rw [← (ascending_perm collapsed).countP_eq, List.length_map]
    have upper := length_sub_le_countP_getElem sorted inside
    rwa [length_ascending] at upper

/-! ## Shares of choices -/

/-- The share of a choice of stacks, in hundredths of the weight of all. -/
def shareOf
    (collapsed : List (Stack Rat))
    (chosen : Finset (Fin collapsed.length)) : Rat :=
  100 * (∑ position ∈ chosen, (collapsed.get position).weight) /
    (collapsed.map Stack.weight).sum

/-- The stacks at all positions weigh what all stacks do. -/
theorem sum_weight_get (collapsed : List (Stack Rat)) :
    ∑ position, (collapsed.get position).weight = (collapsed.map Stack.weight).sum := by
  calc ∑ position, (collapsed.get position).weight
    _ = ((List.finRange collapsed.length).map (Stack.weight ∘ collapsed.get)).sum :=
      Fin.sum_univ_def _
    _ = (collapsed.map Stack.weight).sum := by rw [← List.map_map, List.map_get_finRange]

/-- No choice of stacks has more than the whole. -/
theorem shareOf_le_hundred
    (nonneg : ∀ stack ∈ collapsed, 0 ≤ stack.weight)
    (positive : 0 < (collapsed.map Stack.weight).sum)
    (chosen : Finset (Fin collapsed.length)) :
    shareOf collapsed chosen ≤ 100 := by
  have bounded : ∑ position ∈ chosen, (collapsed.get position).weight ≤
      (collapsed.map Stack.weight).sum := by
    rw [← sum_weight_get]
    exact Finset.sum_le_univ_sum_of_nonneg fun position => nonneg _ (List.get_mem _ position)
  rw [shareOf, div_le_iff₀ positive]
  exact mul_le_mul_of_nonneg_left bounded (by norm_num)

/-- The share of the heaviest tenth is the share of a heaviest selection of that size. -/
theorem exists_topTenth
    (nonempty : collapsed ≠ [])
    (positive : 0 < (collapsed.map Stack.weight).sum) :
    ∃ chosen : Finset (Fin collapsed.length), chosen.card = tenthOf collapsed.length ∧
      IsHeaviest (fun position => (collapsed.get position).weight) chosen ∧
      (ofStacks collapsed).topTenth = shareOf collapsed chosen := by
  have nodup : ((ranked collapsed).take (tenthOf collapsed.length)).Nodup :=
    (List.nodup_reverse.mpr (Sorting.nodup_positions _ collapsed)).take
  refine ⟨((ranked collapsed).take (tenthOf collapsed.length)).toFinset, ?_,
    isHeaviest_take (by simp [ranked]) (falling_ranked collapsed) _, ?_⟩
  · rw [List.toFinset_card_of_nodup nodup, List.length_take]
    simp [ranked, tenthOf_le]
  · rw [ofStacks_eq nonempty, shareOf, List.sum_toFinset _ nodup, ← map_ranked, ← List.map_take]
    exact HotPath.percentageOf_of_pos positive _

/-- The figures of a distribution are true statistics of the stacks in any order: the mean
taken for each stack gives the total, the median is one of the weights with the weights
on either side of it, and the share of the heaviest tenth is the greatest share of any
tenth of the stacks, which is at least a tenth and at most the whole. -/
theorem measures_stacks
    (collapsed : List (Stack Rat))
    (nonempty : collapsed ≠ [])
    (nonneg : ∀ stack ∈ collapsed, 0 ≤ stack.weight)
    (positive : 0 < (collapsed.map Stack.weight).sum) :
    collapsed.length * (ofStacks collapsed).mean = (collapsed.map Stack.weight).sum ∧
    IsMedian (collapsed.map Stack.weight) (ofStacks collapsed).median ∧
    IsGreatest (shareOf collapsed '' {chosen | chosen.card = ⌈(collapsed.length : Rat) / 10⌉₊})
      (ofStacks collapsed).topTenth ∧
    100 * ⌈(collapsed.length : Rat) / 10⌉₊ / collapsed.length ≤ (ofStacks collapsed).topTenth ∧
    (ofStacks collapsed).topTenth ≤ 100 ∧
    ∀ others : List (Stack Rat), others.Perm collapsed →
      ofStacks others = ofStacks collapsed := by
  obtain ⟨chosen, size, heaviest, share⟩ := exists_topTenth nonempty positive
  have counted : (0 : Rat) < collapsed.length :=
    Nat.cast_pos.mpr (List.length_pos_of_ne_nil nonempty)
  refine ⟨?_, isMedian_ofStacks nonempty, ⟨⟨chosen, size, share.symm⟩, ?_⟩, ?_, ?_,
    fun others perm => ofStacks_eq_of_perm perm⟩
  · rw [ofStacks_eq nonempty]
    exact mul_div_cancel₀ _ counted.ne'
  · rintro _ ⟨others, sameSize, rfl⟩
    rw [share, shareOf, shareOf]
    refine div_le_div_of_nonneg_right (mul_le_mul_of_nonneg_left ?_ (by norm_num)) positive.le
    exact heaviest.sum_le_sum (sameSize.trans size.symm)
  · have part := heaviest.card_mul_sum_univ_le
    rw [sum_weight_get, Fintype.card_fin, size, tenthOf] at part
    rw [share, shareOf, div_le_div_iff₀ counted positive]
    linarith
  · rw [share]
    exact shareOf_le_hundred nonneg positive chosen

theorem measures_stacks_evenStacks :
    HotPath.evenStacks ≠ [] ∧ (∀ stack ∈ HotPath.evenStacks, 0 ≤ stack.weight) ∧
    0 < (HotPath.evenStacks.map Stack.weight).sum ∧
    IsMedian (HotPath.evenStacks.map Stack.weight) (ofStacks HotPath.evenStacks).median ∧
    ofStacks HotPath.evenStacks = ⟨12, 4, 3, 3, 50, 1⟩ ∧
    ofStacks HotPath.evenStacks.reverse = ofStacks HotPath.evenStacks := by
  have nonempty : HotPath.evenStacks ≠ [] := List.cons_ne_nil _ _
  have nonneg : ∀ stack ∈ HotPath.evenStacks, 0 ≤ stack.weight := by decide +kernel
  have positive : 0 < (HotPath.evenStacks.map Stack.weight).sum := by decide +kernel
  obtain ⟨-, median, -, -, -, sameFigures⟩ :=
    measures_stacks HotPath.evenStacks nonempty nonneg positive
  exact ⟨nonempty, nonneg, positive, median, by decide +kernel,
    sameFigures _ (List.reverse_perm _)⟩

end Distribution
end FlameProfile
