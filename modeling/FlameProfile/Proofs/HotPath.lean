import Mathlib
import FlameProfile.Proofs.Selection

/-!
# Hot paths in exact arithmetic

The hot paths of stacks are made from the heaviest of them. They are chosen by position,
so that no stack is used twice, and come with the heaviest first, stacks of one weight in
the order of their paths. Their shares are taken of the weight of all stacks: together
they are the share of what was chosen, and the whole if nothing was left out.
-/

namespace FlameProfile

/-! ## Shares of a total -/

namespace HotPath

variable {part total : Rat}

/-- A share of something is taken in hundredths of it. -/
theorem percentageOf_of_pos
    (positive : 0 < total)
    (part : Rat) :
    percentageOf part total = 100 * part / total := by
  have hundred : (Arithmetic.ofCount 100 : Rat) = 100 := rfl
  rw [percentageOf, if_pos positive, hundred]
  ring

/-- Of a total that is not positive every share is zero. -/
theorem percentageOf_of_not_pos
    (notPositive : ¬ 0 < total)
    (part : Rat) :
    percentageOf part total = 0 :=
  if_neg notPositive

/-- The shares of parts add up to the share of their sum. -/
theorem sum_percentageOf
    (parts : List Rat)
    (total : Rat) :
    (parts.map fun part => percentageOf part total).sum = percentageOf parts.sum total := by
  by_cases positive : 0 < total
  · simp only [percentageOf_of_pos positive, div_eq_mul_inv]
    rw [List.sum_map_mul_right, List.sum_map_mul_left, List.map_id']
  · simp [percentageOf_of_not_pos positive]

/-- No part has more than the whole. -/
theorem percentageOf_le_hundred (bounded : part ≤ total) : percentageOf part total ≤ 100 := by
  by_cases positive : 0 < total
  · rw [percentageOf_of_pos positive, div_le_iff₀ positive]
    exact mul_le_mul_of_nonneg_left bounded (by norm_num)
  · rw [percentageOf_of_not_pos positive]
    norm_num

/-- The whole has all hundredths. -/
theorem percentageOf_self (positive : 0 < total) : percentageOf total total = 100 := by
  rw [percentageOf_of_pos positive, mul_div_assoc, div_self positive.ne', mul_one]

end HotPath

/-! ## Ranked stacks -/

namespace Stack

/-- What stacks are ranked by in exact arithmetic: first a great weight, then a low path. -/
def exactKey (stack : Stack Rat) : Ratᵒᵈ ×ₗ List String :=
  toLex (OrderDual.toDual stack.weight, stack.path)

/-- Stacks with exact weights are ranked through weight and path. -/
theorem weightOrder_comparesBy_exactKey :
    Sorting.ComparesBy (fun _ : Stack Rat => True) exactKey weightOrder := by
  intro first second _ _
  rw [weightOrder, Arithmetic.order_eq_compare id Iff.rfl Iff.rfl, ← compare_eq_pathOrder]
  rfl

variable {collapsed : List (Stack Rat)}

/-- The stack at one position comes before that at another: it weighs more, or it weighs
as much and has a lower path, or nothing but the positions tells the two apart. -/
def Outranks
    (collapsed : List (Stack Rat))
    (first second : Fin collapsed.length) : Prop :=
  (collapsed.get second).weight < (collapsed.get first).weight ∨
    (collapsed.get first).weight = (collapsed.get second).weight ∧
      ((collapsed.get first).path < (collapsed.get second).path ∨
        (collapsed.get first).path = (collapsed.get second).path ∧ first < second)

/-- A stack before another weighs no less. -/
theorem Outranks.weight_le
    {first second : Fin collapsed.length}
    (outranks : Outranks collapsed first second) :
    (collapsed.get second).weight ≤ (collapsed.get first).weight := by
  rcases outranks with heavier | ⟨same, _⟩
  · exact heavier.le
  · exact same.ge

/-- Sorted positions outrank those behind them. -/
theorem pairwise_outranks (collapsed : List (Stack Rat)) :
    (Sorting.positions weightOrder collapsed).Pairwise (Outranks collapsed) := by
  refine (weightOrder_comparesBy_exactKey.pairwise_positions collapsed fun _ => trivial).imp ?_
  intro first second inOrder
  rw [exactKey, exactKey, Prod.Lex.toLex_lt_toLex, OrderDual.toDual_lt_toDual,
    OrderDual.toDual_inj, toLex_inj, Prod.mk.injEq, OrderDual.toDual_inj] at inOrder
  rcases inOrder with (heavier | ⟨same, lower⟩) | ⟨⟨same, samePath⟩, earlier⟩
  · exact Or.inl heavier
  · exact Or.inr ⟨same, Or.inl lower⟩
  · exact Or.inr ⟨same, Or.inr ⟨samePath, earlier⟩⟩

/-- Positions of the heaviest stacks: a number of different ones, or all if there are
fewer, in the order of their ranks, and no stack left out weighs more than one chosen. -/
structure IsSelection
    (count : Nat)
    (collapsed : List (Stack Rat))
    (chosen : List (Fin collapsed.length)) : Prop where
  length : chosen.length = min count collapsed.length
  nodup : chosen.Nodup
  ordered : chosen.Pairwise (Outranks collapsed)
  heaviest : IsHeaviest (fun position => (collapsed.get position).weight) chosen.toFinset

/-- The first positions by rank are those of the heaviest stacks. -/
theorem isSelection_take
    (count : Nat)
    (collapsed : List (Stack Rat)) :
    IsSelection count collapsed ((Sorting.positions weightOrder collapsed).take count) where
  length := by rw [List.length_take, Sorting.length_positions]
  nodup := (Sorting.nodup_positions weightOrder collapsed).take
  ordered := (pairwise_outranks collapsed).take
  heaviest := isHeaviest_take Sorting.mem_positions
    ((pairwise_outranks collapsed).imp Outranks.weight_le) count

end Stack

namespace HotPath

/-- The heaviest stacks are taken from their positions by rank. -/
theorem heaviest_eq_map
    (count : Nat)
    (collapsed : List (Stack Rat)) :
    heaviest count collapsed =
      ((Sorting.positions Stack.weightOrder collapsed).take count).map fun position =>
        ofStack (collapsed.map Stack.weight).sum (collapsed.get position) := by
  rw [heaviest, Stack.sortByWeight, ← Sorting.map_get_positions, ← List.map_take, List.map_map,
    Stack.totalWeight, Arithmetic.sum_eq_sum]
  rfl

/-- The shares of the heaviest stacks add up to the share of their weight. -/
theorem sum_percentage_heaviest
    (count : Nat)
    (collapsed : List (Stack Rat)) :
    ((heaviest count collapsed).map percentage).sum =
      percentageOf (((Stack.sortByWeight collapsed).take count).map Stack.weight).sum
        (collapsed.map Stack.weight).sum := by
  rw [← sum_percentageOf, heaviest, List.map_map, List.map_map, Stack.totalWeight,
    Arithmetic.sum_eq_sum]
  rfl

/-- Sorting keeps the weight of all stacks. -/
theorem sum_weight_sortByWeight (collapsed : List (Stack Rat)) :
    ((Stack.sortByWeight collapsed).map Stack.weight).sum =
      (collapsed.map Stack.weight).sum :=
  ((Sorting.sort_perm _ collapsed).map Stack.weight).sum_eq

/-- Hot paths are made from the heaviest stacks, each from one of its own. Their shares
add up to at most the whole, to all of it if no stack is left out and they weigh
something, and to nothing if the stacks weigh nothing. -/
theorem heaviest_selects
    (count : Nat)
    (collapsed : List (Stack Rat))
    (nonneg : ∀ stack ∈ collapsed, 0 ≤ stack.weight) :
    (∃ chosen, Stack.IsSelection count collapsed chosen ∧
      heaviest count collapsed = chosen.map fun position =>
        ofStack (collapsed.map Stack.weight).sum (collapsed.get position)) ∧
    ((heaviest count collapsed).map percentage).sum ≤ 100 ∧
    (collapsed.length ≤ count → 0 < (collapsed.map Stack.weight).sum →
      ((heaviest count collapsed).map percentage).sum = 100) ∧
    ((collapsed.map Stack.weight).sum = 0 →
      ((heaviest count collapsed).map percentage).sum = 0) := by
  refine ⟨⟨_, Stack.isSelection_take count collapsed, heaviest_eq_map count collapsed⟩, ?_⟩
  rw [sum_percentage_heaviest]
  refine ⟨?_, ?_, ?_⟩
  · apply percentageOf_le_hundred
    rw [← sum_weight_sortByWeight collapsed]
    apply ((List.take_sublist count _).map Stack.weight).sum_le_sum
    rw [List.forall_mem_map]
    exact fun stack member => nonneg stack ((Sorting.sort_perm _ collapsed).mem_iff.mp member)
  · intro complete positive
    have all : (Stack.sortByWeight collapsed).take count = Stack.sortByWeight collapsed :=
      List.take_of_length_le ((Sorting.sort_perm _ collapsed).length_eq.trans_le complete)
    rw [all, sum_weight_sortByWeight, percentageOf_self positive]
  · intro weightless
    exact percentageOf_of_not_pos weightless.not_gt _

/-- Stacks of which two weigh the same and one nothing, and two have one path. -/
def evenStacks : List (Stack Rat) :=
  [ ⟨["", "main"], 0, 1, false⟩, ⟨["", "main", "work"], 3, 2, true⟩
  , ⟨["", "main", "idle"], 3, 1, false⟩, ⟨["", "main"], 6, 4, false⟩ ]

theorem heaviest_selects_evenStacks :
    (∀ stack ∈ evenStacks, 0 ≤ stack.weight) ∧
    (∃ chosen, Stack.IsSelection 2 evenStacks chosen ∧
      heaviest 2 evenStacks = chosen.map fun position =>
        ofStack (evenStacks.map Stack.weight).sum (evenStacks.get position)) ∧
    heaviest 2 evenStacks = [⟨["main"], 6, 50, 4, false⟩, ⟨["main", "idle"], 3, 25, 1, false⟩] ∧
    ((heaviest 4 evenStacks).map percentage).sum = 100 := by
  have nonneg : ∀ stack ∈ evenStacks, 0 ≤ stack.weight := by decide +kernel
  obtain ⟨selects, -, -, -⟩ := heaviest_selects 2 evenStacks nonneg
  obtain ⟨-, -, complete, -⟩ := heaviest_selects 4 evenStacks nonneg
  exact ⟨nonneg, selects, by decide +kernel, complete (by decide) (by decide +kernel)⟩

end HotPath
end FlameProfile
