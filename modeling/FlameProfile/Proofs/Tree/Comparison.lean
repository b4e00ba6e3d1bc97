import Mathlib
import FlameProfile.Proofs.Ranking

/-!
# Comparisons of trees in exact arithmetic

A comparison of two trees lists each label at a depth that a frame of either tree has,
with the widths that it has in the one and in the other, the greatest changes first.
Nothing is left open by this: there is one such list. So exchanging the trees exchanges
the widths in every entry and leaves the list in its order, since the sizes of the changes
stay as they are.
-/

namespace FlameProfile
namespace Comparison

/-! ## Entries in order -/

/-- The order of the entries: a greater change comes first, then a lower depth, then a
lower label. -/
def Precedes (first second : Comparison Rat) : Prop :=
  |second.delta| < |first.delta| ∨
    |second.delta| = |first.delta| ∧
      (first.depth < second.depth ∨ first.depth = second.depth ∧ first.label < second.label)

/-- What entries are ranked by in exact arithmetic. -/
def exactKey (entry : Comparison Rat) : Ratᵒᵈ ×ₗ Nat ×ₗ String :=
  toLex (OrderDual.toDual |entry.delta|, toLex (entry.depth, entry.label))

theorem precedes_iff {first second : Comparison Rat} :
    first.Precedes second ↔ first.exactKey < second.exactKey := by
  rw [exactKey, exactKey, Prod.Lex.toLex_lt_toLex, Prod.Lex.toLex_lt_toLex, Precedes,
    OrderDual.toDual_lt_toDual, OrderDual.toDual_inj, eq_comm (a := |second.delta|)]

theorem order_comparesBy_exactKey :
    Sorting.ComparesBy (fun _ : Comparison Rat => True) exactKey order := by
  intro first second _ _
  rw [order, Arithmetic.order_eq_compare id Iff.rfl Iff.rfl, Arithmetic.magnitude_eq_abs,
    Arithmetic.magnitude_eq_abs]
  rfl

/-! ## Comparisons of two trees -/

/-- A list compares two trees: it has an entry for each label at a depth that a frame of
either tree has, with its widths in the two trees, and the entries are in order. -/
structure IsComparison
    (before after : Tree Rat)
    (entries : List (Comparison Rat)) : Prop where
  mem_iff : ∀ entry, entry ∈ entries ↔
    (∃ node ∈ before.nodes ++ after.nodes,
      node.label = entry.label ∧ node.depth = entry.depth) ∧
    entry.baseline = widthAt before (entry.label, entry.depth) ∧
    entry.target = widthAt after (entry.label, entry.depth)
  nodup : (entries.map fun entry => (entry.label, entry.depth)).Nodup
  ordered : entries.Pairwise Precedes

/-- Different entries of a comparison are ranked by different keys. -/
theorem nodup_exactKey_ofTrees (before after : Tree Rat) :
    ((ofTrees before after).map exactKey).Nodup :=
  nodup_map_ofTrees (fun key => ((ofLex (ofLex key).2).2, (ofLex (ofLex key).2).1))
    (fun _ => rfl) before after

/-- Comparing two trees yields a comparison of them. -/
theorem isComparison_ofTrees (before after : Tree Rat) :
    IsComparison before after (ofTrees before after) where
  mem_iff entry := by
    rw [mem_ofTrees_iff]
    simp only [Prod.mk.injEq, List.mem_append, or_and_right, exists_or]
  nodup := nodup_ofTrees before after
  ordered := by
    have listed := (ofTrees_perm before after).map exactKey
    have distinct := listed.nodup_iff.mp (nodup_exactKey_ofTrees before after)
    apply (order_comparesBy_exactKey.pairwise_lt_sort (by simp) distinct).imp
    exact precedes_iff.mpr

variable {before after : Tree Rat} {entries others : List (Comparison Rat)}

/-- Two trees have one comparison. -/
theorem IsComparison.unique
    (compares : IsComparison before after entries)
    (alsoCompares : IsComparison before after others) :
    entries = others := by
  have sorted : ∀ {listed}, IsComparison before after listed →
      listed.Pairwise fun first second => first.exactKey < second.exactKey :=
    fun listed => listed.ordered.imp precedes_iff.mp
  apply List.Pairwise.eq_of_mem_iff (sorted compares) (sorted alsoCompares)
  intro entry
  rw [compares.mem_iff, alsoCompares.mem_iff]

/-! ## Exchanged trees -/

/-- The entry with its two widths exchanged. -/
def exchanged (entry : Comparison Rat) : Comparison Rat :=
  { entry with baseline := entry.target, target := entry.baseline }

theorem exchanged_involutive : Function.Involutive exchanged :=
  fun _ => rfl

@[simp] theorem delta_exchanged (entry : Comparison Rat) :
    entry.exchanged.delta = -entry.delta :=
  (neg_sub entry.target entry.baseline).symm

theorem Precedes.exchanged
    {first second : Comparison Rat}
    (precedes : first.Precedes second) :
    first.exchanged.Precedes second.exchanged := by
  rw [Precedes, delta_exchanged, delta_exchanged, abs_neg, abs_neg]
  exact precedes

theorem IsComparison.exchanged
    (compares : IsComparison before after entries) :
    IsComparison after before (entries.map exchanged) where
  mem_iff entry := by
    have either : ∀ node, node ∈ before.nodes ++ after.nodes ↔
        node ∈ after.nodes ++ before.nodes :=
      fun node => List.perm_append_comm.mem_iff
    rw [List.mem_map_of_involutive exchanged_involutive, compares.mem_iff]
    simp only [either]
    exact and_congr_right fun _ => and_comm
  nodup := by
    rw [List.map_map]
    exact compares.nodup
  ordered := List.pairwise_map.mpr (compares.ordered.imp Precedes.exchanged)

/-! ## What comparing yields -/

/-- What comparing two trees yields is the one comparison of them. The trees the other way
round have the same one with the widths in every entry exchanged, so that every change is
negated, and a tree has not changed from itself anywhere. -/
theorem compares_trees (before after : Tree Rat) :
    (∀ entries, IsComparison before after entries ↔ entries = ofTrees before after) ∧
    ofTrees after before = (ofTrees before after).map exchanged ∧
    (ofTrees after before).map delta = (ofTrees before after).map (fun entry => -entry.delta) ∧
    ∀ entry ∈ ofTrees before before, entry.delta = 0 := by
  have compares := isComparison_ofTrees before after
  have swapped : ofTrees after before = (ofTrees before after).map exchanged :=
    (isComparison_ofTrees after before).unique compares.exchanged
  refine ⟨?_, swapped, ?_, ?_⟩
  · intro entries
    constructor
    · intro alsoCompares
      exact alsoCompares.unique compares
    · rintro rfl
      exact compares
  · rw [swapped, List.map_map]
    exact List.map_congr_left fun entry _ => delta_exchanged entry
  · intro entry member
    obtain ⟨-, baseline, target⟩ := mem_ofTrees_iff.mp member
    rw [delta, baseline, target, sub_self]

end Comparison
end FlameProfile
