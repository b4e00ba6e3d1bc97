import Mathlib
import FlameProfile.Proofs.Path.Order
import FlameProfile.Proofs.Tree.Arena

/-!
# Blocks of arrivals

Stacks arrive at a merge in the order of their paths. The arrivals whose paths
have a stem in common are a block of neighbours. `frameOf` and `nodeOf` read the
frame of a stem off its block, without following the merge: the frame starts at
the offset before the block and ends behind it, the first arrival of the block
opens it, and every later arrival of the very path of the frame adds to it.
-/

namespace FlameProfile
namespace Merge

/-- A stack that arrives at a merge, with the change of its weight if there is
one. -/
abbrev Arrival (Weight : Type) := Stack Weight × Option Weight

variable {Weight : Type}

/-- No arrival has a path below that of an earlier one. -/
def Sorted (arrivals : List (Arrival Weight)) : Prop :=
  arrivals.Pairwise fun first second => ¬ second.1.path < first.1.path

/-- The arrivals before the first one with a stem. -/
def before
    (stem : List String)
    (arrivals : List (Arrival Weight)) : List (Arrival Weight) :=
  arrivals.takeWhile fun arrival => ¬ stem <+: arrival.1.path

/-- The arrivals with a stem. -/
def block
    (stem : List String)
    (arrivals : List (Arrival Weight)) : List (Arrival Weight) :=
  arrivals.filter fun arrival => stem <+: arrival.1.path

/-- A block has the arrivals whose paths begin with its stem. -/
@[simp] theorem mem_block
    {stem : List String}
    {arrivals : List (Arrival Weight)}
    {arrival : Arrival Weight} :
    arrival ∈ block stem arrivals ↔ arrival ∈ arrivals ∧ stem <+: arrival.1.path := by
  simp [block]

/-- A block is not empty if some arrival has the stem. -/
theorem block_ne_nil_iff
    {stem : List String}
    {arrivals : List (Arrival Weight)} :
    block stem arrivals ≠ [] ↔ ∃ arrival ∈ arrivals, stem <+: arrival.1.path := by
  constructor
  · intro nonempty
    obtain ⟨arrival, member⟩ := List.exists_mem_of_ne_nil _ nonempty
    exact ⟨arrival, mem_block.mp member⟩
  · rintro ⟨arrival, member⟩
    exact List.ne_nil_of_mem (mem_block.mpr member)

/-- The block of two runs of arrivals is what each of them has of it. -/
theorem block_append
    (stem : List String)
    (first second : List (Arrival Weight)) :
    block stem (first ++ second) = block stem first ++ block stem second :=
  List.filter_append first second

/-- An arrival below a stem is its own block. -/
theorem block_singleton_of_isPrefix
    {stem : List String}
    {arrival : Arrival Weight}
    (starts : stem <+: arrival.1.path) :
    block stem [arrival] = [arrival] :=
  List.filter_cons_of_pos (by simpa using starts)

/-- An arrival apart from a stem is in no block of it. -/
theorem block_singleton_of_not_isPrefix
    {stem : List String}
    {arrival : Arrival Weight}
    (apart : ¬ stem <+: arrival.1.path) :
    block stem [arrival] = [] :=
  List.filter_cons_of_neg (by simpa using apart)

/-! ## Where a block stands -/

/-- What arrives after a block has begun is not before it. -/
theorem before_append_of_block_ne_nil
    {stem : List String}
    {arrivals : List (Arrival Weight)}
    (begun : block stem arrivals ≠ [])
    (more : List (Arrival Weight)) :
    before stem (arrivals ++ more) = before stem arrivals := by
  induction arrivals with
  | nil => exact absurd rfl begun
  | cons arrival rest inductionHypothesis =>
      by_cases starts : stem <+: arrival.1.path
      · simp [before, starts]
      · have restBegun : block stem rest ≠ [] := by
          rwa [block, List.filter_cons_of_neg (by simpa using starts)] at begun
        rw [before, before, List.cons_append,
          List.takeWhile_cons_of_pos (by simpa using starts),
          List.takeWhile_cons_of_pos (by simpa using starts)]
        exact congrArg (List.cons arrival) (inductionHypothesis restBegun)

/-- Once sorted arrivals have a stem, they have it until they have it never
again. -/
private theorem block_split_of_opened
    {stem : List String}
    {opener : Arrival Weight}
    {rest : List (Arrival Weight)}
    (starts : stem <+: opener.1.path)
    (sorted : Sorted (opener :: rest)) :
    ∃ after, rest = block stem rest ++ after ∧
      ∀ arrival ∈ after, ¬ stem <+: arrival.1.path := by
  induction rest with
  | nil => exact ⟨[], rfl, by simp⟩
  | cons arrival later inductionHypothesis =>
      obtain ⟨notBelow, restSorted⟩ := List.pairwise_cons.mp sorted
      by_cases continues : stem <+: arrival.1.path
      · have laterSorted : Sorted (opener :: later) :=
          List.pairwise_cons.mpr
            ⟨fun other member => notBelow other (List.mem_cons_of_mem _ member),
              (List.pairwise_cons.mp restSorted).2⟩
        obtain ⟨after, split, apart⟩ := inductionHypothesis laterSorted
        refine ⟨after, ?_, apart⟩
        rw [block, List.filter_cons_of_pos (by simpa using continues), List.cons_append]
        exact congrArg (List.cons arrival) split
      · have apart : ∀ other ∈ arrival :: later, ¬ stem <+: other.1.path := by
          intro other member otherStarts
          rcases List.mem_cons.mp member with rfl | inLater
          · exact continues otherStarts
          · exact continues (Path.prefix_of_between starts otherStarts
              (notBelow arrival List.mem_cons_self)
              ((List.pairwise_cons.mp restSorted).1 other inLater))
        have empty : block stem (arrival :: later) = [] := by
          rw [block, List.filter_eq_nil_iff]
          simpa using apart
        exact ⟨arrival :: later, by rw [empty, List.nil_append], apart⟩

/-- The arrivals with a stem are neighbours. -/
theorem block_split
    (stem : List String)
    {arrivals : List (Arrival Weight)}
    (sorted : Sorted arrivals) :
    ∃ after, arrivals = before stem arrivals ++ block stem arrivals ++ after ∧
      ∀ arrival ∈ after, ¬ stem <+: arrival.1.path := by
  induction arrivals with
  | nil => exact ⟨[], rfl, by simp⟩
  | cons arrival rest inductionHypothesis =>
      by_cases starts : stem <+: arrival.1.path
      · obtain ⟨after, split, apart⟩ := block_split_of_opened starts sorted
        refine ⟨after, ?_, apart⟩
        rw [before, List.takeWhile_cons_of_neg (by simpa using starts), List.nil_append, block,
          List.filter_cons_of_pos (by simpa using starts), List.cons_append]
        exact congrArg (List.cons arrival) split
      · obtain ⟨after, split, apart⟩ := inductionHypothesis (List.pairwise_cons.mp sorted).2
        refine ⟨after, ?_, apart⟩
        rw [before, List.takeWhile_cons_of_pos (by simpa using starts), block,
          List.filter_cons_of_neg (by simpa using starts), List.cons_append, List.cons_append]
        exact congrArg (List.cons arrival) split

/-- The block of a stem of the last path goes on to the end. -/
theorem before_append_block_of_last
    {stem : List String}
    {arrivals : List (Arrival Weight)}
    {last : Arrival Weight}
    (sorted : Sorted arrivals)
    (isLast : arrivals.getLast? = some last)
    (starts : stem <+: last.1.path) :
    before stem arrivals ++ block stem arrivals = arrivals := by
  obtain ⟨after, split, apart⟩ := block_split stem sorted
  cases List.eq_nil_or_concat after with
  | inl empty =>
      rw [empty, List.append_nil] at split
      exact split.symm
  | inr nonempty =>
      obtain ⟨front, final, rfl⟩ := nonempty
      rw [List.concat_eq_append] at split apart
      rw [split, ← List.append_assoc, List.getLast?_concat, Option.some.injEq] at isLast
      exact absurd (isLast ▸ starts) (apart final (by simp))

/-! ## Places of blocks -/

/-- The number of the arrivals before the block of a stem. -/
def firstPlace
    (stem : List String)
    (arrivals : List (Arrival Weight)) : Nat :=
  (before stem arrivals).length

/-- The number of the arrivals up to the end of the block of a stem. -/
def lastPlace
    (stem : List String)
    (arrivals : List (Arrival Weight)) : Nat :=
  (before stem arrivals ++ block stem arrivals).length

/-- A block with arrivals ends behind its beginning. -/
theorem firstPlace_lt_lastPlace
    {stem : List String}
    {arrivals : List (Arrival Weight)}
    (begun : block stem arrivals ≠ []) :
    firstPlace stem arrivals < lastPlace stem arrivals := by
  rw [firstPlace, lastPlace, List.length_append]
  exact Nat.lt_add_of_pos_right (List.length_pos_iff.mpr begun)

/-- Up to the end of a block there are the arrivals before it and the block. -/
theorem take_lastPlace
    (stem : List String)
    {arrivals : List (Arrival Weight)}
    (sorted : Sorted arrivals) :
    arrivals.take (lastPlace stem arrivals) = before stem arrivals ++ block stem arrivals := by
  obtain ⟨after, split, _⟩ := block_split stem sorted
  have starts : before stem arrivals ++ block stem arrivals <+: arrivals := ⟨after, split.symm⟩
  exact (List.prefix_iff_eq_take.mp starts).symm

/-- Up to the beginning of a block there are the arrivals before it. -/
theorem take_firstPlace
    {stem : List String}
    {arrivals : List (Arrival Weight)} :
    arrivals.take (firstPlace stem arrivals) = before stem arrivals :=
  (List.prefix_iff_eq_take.mp (List.takeWhile_prefix _)).symm

/-- No block ends behind the last arrival. -/
theorem lastPlace_le_length
    (stem : List String)
    {arrivals : List (Arrival Weight)}
    (sorted : Sorted arrivals) :
    lastPlace stem arrivals ≤ arrivals.length := by
  have length := congrArg List.length (take_lastPlace stem sorted)
  rw [List.length_take, ← lastPlace] at length
  exact min_eq_left_iff.mp length

/-- The arrivals with a stem stand at the places of its block. -/
theorem prefix_iff_place
    {stem : List String}
    {arrivals : List (Arrival Weight)}
    (sorted : Sorted arrivals)
    {place : Nat}
    {arrival : Arrival Weight}
    (found : arrivals[place]? = some arrival) :
    stem <+: arrival.1.path ↔
      firstPlace stem arrivals ≤ place ∧ place < lastPlace stem arrivals := by
  obtain ⟨after, split, apart⟩ := block_split stem sorted
  rw [split] at found
  rw [firstPlace, lastPlace]
  by_cases early : place < (before stem arrivals).length
  · rw [List.append_assoc, List.getElem?_append_left early] at found
    have fails := List.mem_takeWhile_imp (List.mem_of_getElem? found)
    apply iff_of_false (by simpa using fails)
    rintro ⟨notEarly, _⟩
    exact absurd early (Nat.not_lt.mpr notEarly)
  · by_cases inside : place < (before stem arrivals ++ block stem arrivals).length
    · rw [List.getElem?_append_left inside,
        List.getElem?_append_right (Nat.not_lt.mp early)] at found
      have member := List.mem_of_getElem? found
      exact iff_of_true (mem_block.mp member).2 ⟨Nat.not_lt.mp early, inside⟩
    · rw [List.getElem?_append_right (Nat.not_lt.mp inside)] at found
      apply iff_of_false (apart arrival (List.mem_of_getElem? found))
      rintro ⟨_, contrary⟩
      exact inside contrary

/-- The block of a lower stem is over when the block of a higher one begins. -/
theorem lastPlace_le_firstPlace
    {first second : List String}
    {arrivals : List (Arrival Weight)}
    (sorted : Sorted arrivals)
    (below : first < second)
    (apart : ¬ first <+: second)
    (firstBegun : block first arrivals ≠ [])
    (secondBegun : block second arrivals ≠ []) :
    lastPlace first arrivals ≤ firstPlace second arrivals := by
  have firstBound := lastPlace_le_length first sorted
  have secondBound := lastPlace_le_length second sorted
  have firstNonempty := firstPlace_lt_lastPlace firstBegun
  have secondNonempty := firstPlace_lt_lastPlace secondBegun
  by_contra overlap
  rw [Nat.not_le] at overlap
  -- The last arrival of the lower block does not come before the first of the
  -- higher one, yet its path is below.
  have lastInside : lastPlace first arrivals - 1 < arrivals.length := by omega
  have openerInside : firstPlace second arrivals < arrivals.length := by omega
  have lastStarts : first <+: arrivals[lastPlace first arrivals - 1].1.path := by
    rw [prefix_iff_place sorted (List.getElem?_eq_getElem lastInside)]
    omega
  have openerStarts : second <+: arrivals[firstPlace second arrivals].1.path := by
    rw [prefix_iff_place sorted (List.getElem?_eq_getElem openerInside)]
    omega
  have pathsBelow := Path.lt_of_prefix_of_lt below apart lastStarts openerStarts
  by_cases same : firstPlace second arrivals = lastPlace first arrivals - 1
  · simp only [same] at pathsBelow
    exact lt_irrefl _ pathsBelow
  · exact List.pairwise_iff_getElem.mp sorted _ _ openerInside lastInside (by omega) pathsBelow

/-! ## Frames read off their blocks -/

variable [Arithmetic Weight]

/-- The offset behind some arrivals. -/
def offsetAfter (arrivals : List (Arrival Weight)) : Weight :=
  arrivals.foldl (fun offset arrival => offset + arrival.1.weight) 0

/-- An arrival moves the offset by its weight. -/
@[simp] theorem offsetAfter_append_singleton
    (arrivals : List (Arrival Weight))
    (arrival : Arrival Weight) :
    offsetAfter (arrivals ++ [arrival]) = offsetAfter arrivals + arrival.1.weight := by
  simp [offsetAfter]

/-- Add an arrival of the path of a frame to the frame. -/
def absorb
    (frame : OpenFrame Weight)
    (arrival : Arrival Weight) : OpenFrame Weight :=
  { frame with
    calls := max frame.calls arrival.1.calls
    failed := frame.failed || arrival.1.failed
    delta :=
      match arrival.2 with
      | none => frame.delta
      | some change => some (frame.delta.getD 0 + change) }

/-- The frame that an arrival opens for a stem. -/
def openedBy
    (stem : List String)
    (offset : Weight)
    (arrival : Arrival Weight) : OpenFrame Weight :=
  ⟨stem.getLast?.getD "", offset, arrival.1.calls, arrival.1.failed, arrival.2⟩

/-- The frame of a stem as its block leaves it. A stem without a block has a
frame without content. -/
def frameOf
    (arrivals : List (Arrival Weight))
    (stem : List String) : OpenFrame Weight :=
  match block stem arrivals with
  | [] => ⟨stem.getLast?.getD "", offsetAfter arrivals, 0, false, none⟩
  | opener :: later =>
      (later.filter fun arrival => arrival.1.path = stem).foldl absorb
        (openedBy stem (offsetAfter (before stem arrivals)) opener)

/-- The closed frame of a stem. -/
def nodeOf
    (arrivals : List (Arrival Weight))
    (stem : List String) : Node Weight :=
  close (frameOf arrivals stem) (stem.length - 1)
    (offsetAfter (before stem arrivals ++ block stem arrivals))

/-- The frame of a stem is opened by the first arrival of its block and absorbs the later ones
of its path. -/
theorem frameOf_of_block_eq_cons
    {arrivals later : List (Arrival Weight)}
    {stem : List String}
    {opener : Arrival Weight}
    (opened : block stem arrivals = opener :: later) :
    frameOf arrivals stem =
      (later.filter fun arrival => arrival.1.path = stem).foldl absorb
        (openedBy stem (offsetAfter (before stem arrivals)) opener) := by
  rw [frameOf, opened]

@[simp] theorem label_foldl_absorb
    (frame : OpenFrame Weight)
    (arrivals : List (Arrival Weight)) :
    (arrivals.foldl absorb frame).label = frame.label := by
  induction arrivals generalizing frame with
  | nil => rfl
  | cons arrival rest inductionHypothesis => exact inductionHypothesis (absorb frame arrival)

@[simp] theorem start_foldl_absorb
    (frame : OpenFrame Weight)
    (arrivals : List (Arrival Weight)) :
    (arrivals.foldl absorb frame).start = frame.start := by
  induction arrivals generalizing frame with
  | nil => rfl
  | cons arrival rest inductionHypothesis => exact inductionHypothesis (absorb frame arrival)

/-- A frame bears the last label of its stem. -/
@[simp] theorem label_frameOf
    (arrivals : List (Arrival Weight))
    (stem : List String) :
    (frameOf arrivals stem).label = stem.getLast?.getD "" := by
  unfold frameOf
  split
  · rfl
  · rw [label_foldl_absorb, openedBy]

/-- A frame starts at the offset before its block. -/
theorem start_frameOf
    {arrivals : List (Arrival Weight)}
    {stem : List String}
    (begun : block stem arrivals ≠ []) :
    (frameOf arrivals stem).start = offsetAfter (before stem arrivals) := by
  obtain ⟨opener, later, opened⟩ := List.exists_cons_of_ne_nil begun
  rw [frameOf_of_block_eq_cons opened, start_foldl_absorb, openedBy]

/-- The first arrival with a stem opens its frame. -/
theorem frameOf_append_of_block_eq_nil
    {arrivals : List (Arrival Weight)}
    {stem : List String}
    {arrival : Arrival Weight}
    (empty : block stem arrivals = [])
    (starts : stem <+: arrival.1.path) :
    frameOf (arrivals ++ [arrival]) stem = openedBy stem (offsetAfter arrivals) arrival := by
  have opened : block stem (arrivals ++ [arrival]) = [arrival] := by
    rw [block_append, empty, block_singleton_of_isPrefix starts, List.nil_append]
  have place : before stem (arrivals ++ [arrival]) = arrivals := by
    rw [before, List.takeWhile_append_of_pos, List.takeWhile_cons_of_neg (by simpa using starts),
      List.append_nil]
    intro other member
    rw [block, List.filter_eq_nil_iff] at empty
    simpa using empty other member
  rw [frameOf_of_block_eq_cons opened, place]
  rfl

/-- A later arrival with a stem adds to its frame if it ends there. -/
theorem frameOf_append_of_isPrefix
    {arrivals : List (Arrival Weight)}
    {stem : List String}
    {arrival : Arrival Weight}
    (begun : block stem arrivals ≠ [])
    (starts : stem <+: arrival.1.path) :
    frameOf (arrivals ++ [arrival]) stem =
      if arrival.1.path = stem then absorb (frameOf arrivals stem) arrival
      else frameOf arrivals stem := by
  obtain ⟨opener, later, opened⟩ := List.exists_cons_of_ne_nil begun
  have openedMore : block stem (arrivals ++ [arrival]) = opener :: (later ++ [arrival]) := by
    rw [block_append, opened, block_singleton_of_isPrefix starts, List.cons_append]
  rw [frameOf_of_block_eq_cons openedMore, frameOf_of_block_eq_cons opened,
    before_append_of_block_ne_nil begun, List.filter_append, List.foldl_append]
  by_cases same : arrival.1.path = stem
  · simp [same]
  · simp [same]

/-- An arrival without a stem leaves the frame of the stem as it is. -/
theorem frameOf_append_of_not_isPrefix
    {arrivals : List (Arrival Weight)}
    {stem : List String}
    {arrival : Arrival Weight}
    (begun : block stem arrivals ≠ [])
    (apart : ¬ stem <+: arrival.1.path) :
    frameOf (arrivals ++ [arrival]) stem = frameOf arrivals stem := by
  obtain ⟨opener, later, opened⟩ := List.exists_cons_of_ne_nil begun
  have openedMore : block stem (arrivals ++ [arrival]) = opener :: later := by
    rw [block_append, opened, block_singleton_of_not_isPrefix apart, List.append_nil]
  rw [frameOf_of_block_eq_cons openedMore, frameOf_of_block_eq_cons opened,
    before_append_of_block_ne_nil begun]

/-- Closed frames are not touched by what arrives later. -/
theorem nodeOf_append_of_not_isPrefix
    {arrivals : List (Arrival Weight)}
    {stem : List String}
    {arrival : Arrival Weight}
    (begun : block stem arrivals ≠ [])
    (apart : ¬ stem <+: arrival.1.path) :
    nodeOf (arrivals ++ [arrival]) stem = nodeOf arrivals stem := by
  rw [nodeOf, nodeOf, frameOf_append_of_not_isPrefix begun apart,
    before_append_of_block_ne_nil begun, block_append, block_singleton_of_not_isPrefix apart,
    List.append_nil]

end Merge
end FlameProfile
