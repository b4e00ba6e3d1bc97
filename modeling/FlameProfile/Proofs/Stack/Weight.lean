import Mathlib
import FlameProfile.Proofs.Arithmetic.Overflow
import FlameProfile.Proofs.Stack.Coalescing

/-!
# Weight of stacks

A tree of stacks covers their weights, added one after the other in the order of the
paths. Where the stacks of resources cover a finite weight no amount is infinite.
-/

namespace FlameProfile

namespace Stack

/-- The weight that a tree of stacks covers. -/
def covered
    {Weight : Type}
    [Arithmetic Weight]
    (collapsed : List (Stack Weight)) : Weight :=
  collapsed.foldl (fun total stack => total + stack.weight) 0

/-! ## Finite weights -/

/-- Only finite numbers have a finite sum. -/
theorem isFinite_of_isFinite_foldl
    {Item : Type}
    {weight : Item -> Float}
    {items : List Item}
    {total : Float}
    (finite : (items.foldl (fun total item => total + weight item) total).isFinite = true) :
    total.isFinite = true ∧ ∀ item ∈ items, (weight item).isFinite = true := by
  induction items generalizing total with
  | nil => exact ⟨finite, by simp⟩
  | cons item rest inductionHypothesis =>
      obtain ⟨sum, others⟩ := inductionHypothesis finite
      obtain ⟨before, here⟩ := Floating.isFinite_of_isFinite_add sum
      exact ⟨before, List.forall_mem_cons.mpr ⟨here, others⟩⟩

/-- A stack is merged into the one of its path, which is finite only if it is. -/
theorem exists_coalesced
    {collapsed : List (Stack Float)}
    {stack : Stack Float}
    (member : stack ∈ collapsed) :
    ∃ group ∈ (coalesce collapsed).map Prod.snd,
      group.weight.isFinite = true → stack.weight.isFinite = true := by
  have samePath : stack ∈ collapsed.filter fun other => other.path = stack.path :=
    List.mem_filter.mpr ⟨member, by simp⟩
  obtain ⟨first, rest, split⟩ := List.exists_cons_of_ne_nil (List.ne_nil_of_mem samePath)
  have found := find?_coalesce stack.path collapsed
  rw [split, merged_cons] at found
  refine ⟨rest.foldl merge first,
    List.mem_map.mpr ⟨_, (FirstSeen.find?_eq_some_iff (nodup_keys_coalesce collapsed)).mp found,
      rfl⟩, fun finite => ?_⟩
  rw [weight_foldl_merge] at finite
  obtain ⟨firstFinite, restFinite⟩ := isFinite_of_isFinite_foldl finite
  rw [split] at samePath
  rcases List.mem_cons.mp samePath with rfl | later
  · exact firstFinite
  · exact restFinite stack later

/-- Resources that cover a finite weight have finite amounts. -/
theorem isFinite_amount_of_covered
    {resources : List (Resource Float)}
    (finite : (covered (ofResources resources)).isFinite = true) :
    ∀ resource ∈ resources, resource.amount.isFinite = true := by
  intro resource member
  obtain ⟨group, isGroup, transfers⟩ :=
    exists_coalesced (List.mem_map_of_mem (f := ofResource) member)
  have inOrder : group ∈ ofResources resources :=
    (Sorting.sort_perm _ _).mem_iff.mpr isGroup
  exact transfers ((isFinite_of_isFinite_foldl finite).2 group inOrder)

end Stack

end FlameProfile
