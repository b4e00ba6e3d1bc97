/-!
# Sorted maps of texts

A map from texts to texts lists its entries in strictly ascending order of
their keys. Two maps with the same entries are therefore equal.
-/

namespace FlameProfile

/-- Texts by text keys, in ascending order of the keys. -/
structure TextMap where
  entries : List (String × String)
  sorted : entries.Pairwise fun first second => first.1 < second.1
  deriving DecidableEq

namespace TextMap

/-- The map without entries. -/
def empty : TextMap :=
  ⟨[], List.Pairwise.nil⟩

/-- Put a value at a key into sorted entries, in place of a value there. -/
def insertEntry (key value : String) : List (String × String) -> List (String × String)
  | [] => [(key, value)]
  | entry :: rest =>
      if key < entry.1 then
        (key, value) :: entry :: rest
      else if key = entry.1 then
        (key, value) :: rest
      else
        entry :: insertEntry key value rest

/-- A bound below all keys stays below them if it is below the inserted key. -/
theorem lt_of_mem_insertEntry
    {bound key value : String}
    {entries : List (String × String)}
    (below : bound < key)
    (belowAll : ∀ entry ∈ entries, bound < entry.1) :
    ∀ entry ∈ insertEntry key value entries, bound < entry.1 := by
  induction entries with
  | nil => simpa [insertEntry] using below
  | cons head rest induction =>
      have belowHead := belowAll head (by simp)
      have belowRest := fun entry member => belowAll entry (List.mem_cons_of_mem head member)
      unfold insertEntry
      split
      · simp only [List.mem_cons, forall_eq_or_imp]
        exact ⟨below, belowHead, belowRest⟩
      · split
        · simp only [List.mem_cons, forall_eq_or_imp]
          exact ⟨below, belowRest⟩
        · simp only [List.mem_cons, forall_eq_or_imp]
          exact ⟨belowHead, induction belowRest⟩

/-- Insertion keeps the entries sorted. -/
theorem pairwise_insertEntry
    (key value : String)
    {entries : List (String × String)}
    (sorted : entries.Pairwise fun first second => first.1 < second.1) :
    (insertEntry key value entries).Pairwise fun first second => first.1 < second.1 := by
  induction entries with
  | nil => simp [insertEntry]
  | cons head rest induction =>
      obtain ⟨headBelow, restSorted⟩ := List.pairwise_cons.mp sorted
      unfold insertEntry
      split
      next below =>
        refine List.pairwise_cons.mpr ⟨?_, sorted⟩
        simp only [List.mem_cons, forall_eq_or_imp]
        exact ⟨below, fun entry member => String.lt_trans below (headBelow entry member)⟩
      next notBelow =>
        split
        next same =>
          refine List.pairwise_cons.mpr ⟨?_, restSorted⟩
          exact fun entry member => same ▸ headBelow entry member
        next different =>
          refine List.pairwise_cons.mpr ⟨?_, induction restSorted⟩
          have above : head.1 < key :=
            Decidable.byContradiction fun notAbove =>
              different (String.le_antisymm notAbove notBelow)
          exact lt_of_mem_insertEntry above headBelow

/-- Put a value at a key. -/
def insert
    (map : TextMap)
    (key value : String) : TextMap :=
  ⟨insertEntry key value map.entries, pairwise_insertEntry key value map.sorted⟩

/-- The map of a list of entries; of several with one key the last one counts. -/
def ofList (entries : List (String × String)) : TextMap :=
  entries.foldl (fun map entry => map.insert entry.1 entry.2) empty

/-- The value at a key. -/
def find?
    (map : TextMap)
    (key : String) : Option String :=
  map.entries.lookup key

end TextMap
end FlameProfile
