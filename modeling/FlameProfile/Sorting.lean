/-!
# Stable sorting

A list is sorted by inserting its elements from left to right. An element is
put before the sorted elements that it strictly precedes and behind all others,
so equal elements keep their order. The sorted part is held with its last
element first, which makes one insertion a recursion on that part.
-/

namespace FlameProfile
namespace Sorting

variable {Element : Type} (order : Element -> Element -> Ordering)

/-- Insert an element into a sorted list that is held last element first. -/
def insertLast
    (element : Element) : List Element -> List Element
  | [] => [element]
  | last :: earlier =>
      if order element last = .lt then
        last :: insertLast element earlier
      else
        element :: last :: earlier

/-- Sort a list; elements that the order does not tell apart stay in place. -/
def sort (elements : List Element) : List Element :=
  (elements.foldl (fun sorted element => insertLast order element sorted) []).reverse

@[simp] theorem sort_nil : sort order [] = [] := rfl

/-- Insertion adds the element and loses none. -/
theorem insertLast_perm
    (element : Element)
    (elements : List Element) :
    (insertLast order element elements).Perm (element :: elements) := by
  induction elements with
  | nil => exact List.Perm.refl _
  | cons last earlier induction =>
      unfold insertLast
      split
      · exact (induction.cons last).trans (List.Perm.swap element last earlier)
      · exact List.Perm.refl _

/-- Sorting rearranges and neither adds nor loses elements. -/
theorem sort_perm (elements : List Element) :
    (sort order elements).Perm elements := by
  suffices grows : forall sorted : List Element,
      (elements.foldl (fun sorted element => insertLast order element sorted) sorted).Perm
        (elements ++ sorted) by
    exact (List.reverse_perm _).trans (by simpa using grows [])
  induction elements with
  | nil => intro sorted; exact List.Perm.refl _
  | cons element rest induction =>
      intro sorted
      refine (induction _).trans ?_
      refine ((insertLast_perm order element sorted).append_left rest).trans ?_
      exact List.perm_middle

end Sorting
end FlameProfile
