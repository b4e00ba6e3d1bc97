import Mathlib
import FlameProfile.Sorting
import FlameProfile.Tree.Difference

/-!
# Sorted lists

Sorting by a weak order yields a list in which no element precedes an earlier
one, and keeps the elements that the order does not tell apart in the order in
which they came.
-/

namespace FlameProfile
namespace Sorting

variable {Element : Type} {order : Element -> Element -> Ordering}

/-- The strict part of an order is asymmetric, and not being less is
transitive. -/
structure IsWeak (order : Element -> Element -> Ordering) : Prop where
  asymm : ∀ {first second : Element}, order first second = .lt → order second first ≠ .lt
  not_lt_trans : ∀ {first second third : Element},
    order first second ≠ .lt → order second third ≠ .lt → order first third ≠ .lt

/-- Comparing keys is a weak order. -/
theorem isWeak_compare
    {Key : Type}
    [LinearOrder Key]
    (key : Element -> Key) :
    IsWeak fun first second => compare (key first) (key second) where
  asymm := by
    intro first second less
    rw [compare_lt_iff_lt] at less
    rw [Ne, compare_lt_iff_lt]
    exact lt_asymm less
  not_lt_trans := by
    intro first second third firstNotLess secondNotLess
    rw [Ne, compare_lt_iff_lt, not_lt] at firstNotLess secondNotLess ⊢
    exact secondNotLess.trans firstNotLess

/-- No element of a list precedes an earlier one. -/
def IsSorted
    (order : Element -> Element -> Ordering)
    (elements : List Element) : Prop :=
  elements.Pairwise fun first second => order second first ≠ .lt

theorem insertLast_pairwise
    (weak : IsWeak order)
    (element : Element)
    {elements : List Element}
    (sorted : elements.Pairwise fun later earlier => order later earlier ≠ .lt) :
    (insertLast order element elements).Pairwise fun later earlier =>
      order later earlier ≠ .lt := by
  induction elements with
  | nil => exact List.pairwise_singleton _ _
  | cons last earlier inductionHypothesis =>
      obtain ⟨lastAbove, earlierSorted⟩ := List.pairwise_cons.mp sorted
      rw [insertLast]
      split
      next less =>
        refine List.pairwise_cons.mpr ⟨?_, inductionHypothesis earlierSorted⟩
        intro other member
        rcases List.mem_cons.mp ((insertLast_perm order element earlier).mem_iff.mp member) with
          rfl | old
        · exact weak.asymm less
        · exact lastAbove other old
      next notLess =>
        refine List.pairwise_cons.mpr ⟨?_, sorted⟩
        intro other member
        rcases List.mem_cons.mp member with rfl | old
        · exact notLess
        · exact weak.not_lt_trans notLess (lastAbove other old)

/-- Sorting sorts. -/
theorem isSorted_sort
    (weak : IsWeak order)
    (elements : List Element) :
    IsSorted order (sort order elements) := by
  suffices sorts : ∀ sorted : List Element,
      (sorted.Pairwise fun later earlier => order later earlier ≠ .lt) →
      (elements.foldl (fun sorted element => insertLast order element sorted) sorted).Pairwise
        fun later earlier => order later earlier ≠ .lt by
    exact List.pairwise_reverse.mpr (sorts [] List.Pairwise.nil)
  induction elements with
  | nil => exact fun sorted isSorted => isSorted
  | cons element rest inductionHypothesis =>
      intro sorted isSorted
      exact inductionHypothesis _ (insertLast_pairwise weak element isSorted)

/-- What is sorted stays as it is. -/
theorem sort_of_isSorted
    {elements : List Element}
    (sorted : IsSorted order elements) :
    sort order elements = elements := by
  suffices stays : ∀ held : List Element,
      (∀ element ∈ elements, ∀ earlier ∈ held, order element earlier ≠ .lt) →
      elements.foldl (fun held element => insertLast order element held) held =
        elements.reverse ++ held by
    rw [sort, stays [] (by simp), List.append_nil, List.reverse_reverse]
  induction elements with
  | nil => exact fun held _ => rfl
  | cons element rest inductionHypothesis =>
      obtain ⟨elementBelow, restSorted⟩ := List.pairwise_cons.mp sorted
      intro held above
      obtain ⟨elementAbove, restAbove⟩ := List.forall_mem_cons.mp above
      have inserted : insertLast order element held = element :: held := by
        cases held with
        | nil => rfl
        | cons last earlier => rw [insertLast, if_neg (elementAbove last List.mem_cons_self)]
      rw [List.foldl_cons, inserted, inductionHypothesis restSorted, List.reverse_cons,
        List.append_assoc, List.singleton_append]
      intro later member earlier isEarlier
      rcases List.mem_cons.mp isEarlier with rfl | old
      · exact elementBelow later member
      · exact restAbove later member earlier old

/-- An element is inserted above all elements that tie with it. -/
theorem filter_insertLast
    {tied : Element -> Bool}
    (ties : ∀ first second, tied first = true → tied second = true → order first second ≠ .lt)
    (element : Element)
    (elements : List Element) :
    (insertLast order element elements).filter tied = [element].filter tied ++
      elements.filter tied := by
  induction elements with
  | nil => exact (List.append_nil _).symm
  | cons last earlier inductionHypothesis =>
      rw [insertLast]
      split
      next less =>
        rw [List.filter_cons, inductionHypothesis, List.filter_cons (x := last)]
        by_cases elementTied : tied element = true
        · have lastApart : ¬ tied last = true := fun lastTied =>
            ties element last elementTied lastTied less
          rw [if_neg lastApart, if_neg lastApart]
        · rw [List.filter_cons_of_neg elementTied]
          rfl
      next notLess => rw [← List.filter_append, List.singleton_append]

/-- Elements that tie stay in the order in which they came. -/
theorem filter_sort
    {tied : Element -> Bool}
    (ties : ∀ first second, tied first = true → tied second = true → order first second ≠ .lt)
    (elements : List Element) :
    (sort order elements).filter tied = elements.filter tied := by
  suffices keeps : ∀ sorted : List Element,
      (elements.foldl (fun sorted element => insertLast order element sorted) sorted).filter tied =
        (elements.filter tied).reverse ++ sorted.filter tied by
    rw [sort, List.filter_reverse, keeps [], List.filter_nil, List.append_nil, List.reverse_reverse]
  induction elements with
  | nil => exact fun sorted => rfl
  | cons element rest inductionHypothesis =>
      intro sorted
      rw [List.foldl_cons, inductionHypothesis, filter_insertLast ties, ← List.append_assoc]
      by_cases elementTied : tied element = true
      · rw [List.filter_cons_of_pos elementTied, List.filter_cons_of_pos elementTied,
          List.filter_nil, List.reverse_cons]
      · rw [List.filter_cons_of_neg elementTied, List.filter_cons_of_neg elementTied,
          List.filter_nil, List.append_nil]

/-! ## Sorting by what elements are mapped to -/

section Map

variable {Other : Type} (value : Element -> Other) (otherOrder : Other -> Other -> Ordering)

theorem map_insertLast
    (element : Element)
    (elements : List Element) :
    (insertLast (fun first second => otherOrder (value first) (value second)) element
        elements).map value =
      insertLast otherOrder (value element) (elements.map value) := by
  induction elements with
  | nil => rfl
  | cons last earlier inductionHypothesis =>
      rw [insertLast, List.map_cons, insertLast, ← inductionHypothesis]
      exact apply_ite (List.map value) _ _ _

/-- Sorting by values and then taking them is taking the values and sorting them. -/
theorem map_sort (elements : List Element) :
    (sort (fun first second => otherOrder (value first) (value second)) elements).map value =
      sort otherOrder (elements.map value) := by
  rw [sort, sort, List.map_reverse, List.foldl_map]
  exact congrArg List.reverse
    (List.foldl_hom (List.map value) fun sorted element =>
      (map_insertLast value otherOrder element sorted).symm).symm

end Map

/-- Sorting looks at the order of the elements only. -/
theorem sort_congr
    {other : Element -> Element -> Ordering}
    {elements : List Element}
    (same : ∀ first ∈ elements, ∀ second ∈ elements, order first second = other first second) :
    sort order elements = sort other elements := by
  have agree : (fun first second : { element // element ∈ elements } =>
        order first.val second.val) =
      fun first second => other first.val second.val := by
    funext first second
    exact same first first.property second second.property
  calc sort order elements
    _ = sort order (elements.attach.map Subtype.val) := by rw [List.attach_map_subtype_val]
    _ = (sort (fun first second => order first.val second.val) elements.attach).map Subtype.val :=
      (map_sort Subtype.val order elements.attach).symm
    _ = (sort (fun first second => other first.val second.val) elements.attach).map Subtype.val :=
      by rw [agree]
    _ = sort other (elements.attach.map Subtype.val) := map_sort Subtype.val other elements.attach
    _ = sort other elements := by rw [List.attach_map_subtype_val]

end Sorting

/-! ## Stacks in the order of their paths -/

/-- Paths compare as in their linear order. -/
theorem compare_eq_pathOrder (first second : List String) :
    LinearOrder.toOrd.compare first second = pathOrder first second := by
  rw [LinearOrder.compare_eq_compareOfLessAndEq, pathOrder]
  congr

theorem pathOrder_eq_lt_iff (first second : List String) :
    pathOrder first second = .lt ↔ first < second := by
  rw [← compare_eq_pathOrder]
  exact compare_lt_iff_lt

/-- Ordering by a path is weak. -/
theorem isWeak_pathOrder
    {Element : Type}
    (path : Element -> List String) :
    Sorting.IsWeak fun first second => pathOrder (path first) (path second) := by
  simp only [← compare_eq_pathOrder]
  exact Sorting.isWeak_compare path

namespace Stack

variable {Weight : Type}

/-- A list holds the stacks of another one in the order of their paths, those
of one path in the order in which they came. -/
structure IsStableOrder (collapsed ordered : List (Stack Weight)) : Prop where
  perm : ordered.Perm collapsed
  sorted : ordered.Pairwise fun first second => ¬ second.path < first.path
  stable : ∀ path : List String,
    (ordered.filter fun stack => stack.path = path) =
      collapsed.filter fun stack => stack.path = path

theorem isStableOrder_sortByPath (collapsed : List (Stack Weight)) :
    IsStableOrder collapsed (sortByPath collapsed) where
  perm := Sorting.sort_perm _ collapsed
  sorted := by
    have sorted := Sorting.isSorted_sort (isWeak_pathOrder Stack.path) collapsed
    apply sorted.imp
    intro first second notLess
    rwa [Ne, pathOrder_eq_lt_iff] at notLess
  stable := by
    intro path
    refine Sorting.filter_sort ?_ collapsed
    intro first second firstTied secondTied
    rw [Ne, pathOrder_eq_lt_iff, of_decide_eq_true firstTied, of_decide_eq_true secondTied]
    exact lt_irrefl path

end Stack

/-- Paired stacks come in the order of their paths. -/
theorem PairedStack.sorted_ofStacks
    {Weight : Type}
    [Arithmetic Weight]
    (baseline target : List (Stack Weight)) :
    (ofStacks baseline target).Pairwise fun first second =>
      ¬ second.target.path < first.target.path := by
  have sorted := Sorting.isSorted_sort
    (isWeak_pathOrder fun paired : PairedStack Weight => paired.target.path)
    ((baseline.foldl addBaseline (target.foldl addTarget [])).map Prod.snd)
  apply sorted.imp
  intro first second notLess
  rwa [Ne, pathOrder_eq_lt_iff] at notLess

end FlameProfile
