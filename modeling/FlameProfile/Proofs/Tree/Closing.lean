import Mathlib
import FlameProfile.Proofs.Tree.Block

/-!
# What a merge has opened and closed

After sorted arrivals a merge holds the frames of the last path open and has
closed the frames of all other stems, each exactly once and in the order of
closing. `Reflects` says so of one state, `Reflects.push` that the next arrival
keeps it, and `exists_pushAll` that a whole run succeeds and ends in such a
state.
-/

namespace FlameProfile
namespace Merge

variable {Weight : Type} [Arithmetic Weight]

/-- The path of the last arrival. -/
def lastPath (arrivals : List (Arrival Weight)) : List String :=
  (arrivals.getLast?.map fun arrival => arrival.1.path).getD []

omit [Arithmetic Weight] in
@[simp] theorem lastPath_append_singleton
    (arrivals : List (Arrival Weight))
    (arrival : Arrival Weight) :
    lastPath (arrivals ++ [arrival]) = arrival.1.path := by
  simp [lastPath]

/-- The stem of a path at a depth. -/
def stemAt
    (path : List String)
    (depth : Nat) : List String :=
  path.take (depth + 1)

theorem length_stemAt
    {path : List String}
    {depth : Nat}
    (inside : depth < path.length) :
    (stemAt path depth).length = depth + 1 := by
  rw [stemAt, List.length_take, min_eq_left inside]

theorem stemAt_isPrefix (path : List String) (depth : Nat) :
    stemAt path depth <+: path :=
  List.take_prefix (depth + 1) path

theorem getLast?_stemAt
    {path : List String}
    {depth : Nat}
    (inside : depth < path.length) :
    (stemAt path depth).getLast? = some path[depth] := by
  rw [List.getLast?_eq_getElem?, length_stemAt inside, stemAt]
  simp [inside]

/-- The stems of a path are its non-empty beginnings. -/
theorem exists_stemAt_iff
    {stem path : List String} :
    (∃ depth, depth < path.length ∧ stemAt path depth = stem) ↔ stem ≠ [] ∧ stem <+: path := by
  constructor
  · rintro ⟨depth, inside, rfl⟩
    refine ⟨?_, stemAt_isPrefix path depth⟩
    intro empty
    have length := length_stemAt inside
    rw [empty] at length
    exact Nat.succ_ne_zero depth length.symm
  · rintro ⟨nonempty, starts⟩
    have positive : 0 < stem.length := List.length_pos_iff.mpr nonempty
    have bound := starts.length_le
    refine ⟨stem.length - 1, by omega, ?_⟩
    rw [stemAt, Nat.sub_add_cancel positive]
    exact (List.prefix_iff_eq_take.mp starts).symm

/-- Two paths have their stems in common up to their common length. -/
theorem stemAt_prefix_iff
    {first second : List String}
    {depth : Nat}
    (inside : depth < second.length) :
    stemAt second depth <+: first ↔ depth < commonLength first second := by
  constructor
  · intro starts
    have bound := starts.length_le
    rw [length_stemAt inside] at bound
    have same := List.prefix_iff_eq_take.mp starts
    rw [length_stemAt inside] at same
    exact (Path.take_prefix_iff bound).mp (same ▸ stemAt_isPrefix second depth)
  · intro common
    rw [stemAt, ← Path.take_eq_take_of_le_commonLength common]
    exact List.take_prefix (depth + 1) first

/-- The stems of a path that are longer than the kept part, the longest first. -/
def closingStems
    (path : List String)
    (kept : Nat) : List (List String) :=
  (List.range' kept (path.length - kept)).reverse.map (stemAt path)

theorem mem_closingStems
    {path stem : List String}
    {kept : Nat} :
    stem ∈ closingStems path kept ↔ stem <+: path ∧ kept < stem.length := by
  simp only [closingStems, List.mem_map, List.mem_reverse, List.mem_range'_1]
  constructor
  · rintro ⟨depth, bounds, rfl⟩
    have inside : depth < path.length := by omega
    exact ⟨stemAt_isPrefix path depth, by rw [length_stemAt inside]; omega⟩
  · rintro ⟨starts, longer⟩
    have nonempty : stem ≠ [] := List.ne_nil_of_length_pos (Nat.zero_lt_of_lt longer)
    obtain ⟨depth, inside, rfl⟩ := exists_stemAt_iff.mpr ⟨nonempty, starts⟩
    rw [length_stemAt inside] at longer
    exact ⟨depth, by omega, rfl⟩

/-- Stems are closed from the longest to the shortest. -/
theorem ordered_closingStems (path : List String) (kept : Nat) :
    (closingStems path kept).Pairwise Path.ClosesBefore := by
  rw [closingStems, List.pairwise_map, List.pairwise_reverse]
  refine List.Pairwise.imp_of_mem ?_ List.pairwise_lt_range'
  intro shallow deep _ deepMember less
  rw [List.mem_range'_1] at deepMember
  have inside : deep < path.length := by omega
  refine Or.inl ⟨List.take_prefix_take_left (by omega), ?_⟩
  intro equal
  have lengths := congrArg List.length equal
  rw [length_stemAt inside, length_stemAt (less.trans inside)] at lengths
  omega

/-- The stems beyond the common length are those that the other path lacks. -/
theorem mem_closingStems_commonLength
    {first second stem : List String} :
    stem ∈ closingStems first (commonLength first second) ↔
      stem <+: first ∧ ¬ stem <+: second := by
  rw [mem_closingStems]
  apply and_congr_right
  intro starts
  have same : first.take stem.length <+: second ↔ stem.length ≤ commonLength first second :=
    Path.take_prefix_iff starts.length_le
  rw [← List.prefix_iff_eq_take.mp starts] at same
  rw [same, Nat.not_le]

/-! ## Closing a range of depths -/

/-- The depths of a path, split at one of them. -/
theorem range_eq_append
    {kept length : Nat}
    (bound : kept ≤ length) :
    List.range length = List.range kept ++ List.range' kept (length - kept) := by
  have joined := @List.range'_append_1 0 kept (length - kept)
  rw [Nat.zero_add, Nat.add_sub_cancel' bound] at joined
  rw [List.range_eq_range', List.range_eq_range', joined]

/-- Closing the frames above some outer ones leaves the outer ones open, and
closes the frame of the greatest depth first. -/
theorem closeTo_range
    (frame : Nat -> OpenFrame Weight)
    (offset : Weight)
    (outer : List (OpenFrame Weight))
    (count : Nat)
    (closed : List (Node Weight)) :
    closeTo outer.length offset
        (((List.range' outer.length count).map frame).reverse ++ outer.reverse) closed =
      (outer.reverse,
        Node.insertAll closed
          ((List.range' outer.length count).reverse.map fun depth =>
            close (frame depth) depth offset)) := by
  induction count generalizing closed with
  | zero =>
      simp only [List.range'_zero, List.map_nil, List.reverse_nil, List.nil_append,
        Node.insertAll_nil]
      cases outer using List.reverseRecOn with
      | nil => rfl
      | append_singleton front last =>
          rw [List.reverse_append, List.reverse_singleton, List.singleton_append, closeTo, if_pos]
          simp
  | succ count inductionHypothesis =>
      rw [List.range'_1_concat, List.map_append, List.reverse_append, List.reverse_append,
        List.map_append]
      simp only [List.map_cons, List.map_nil, List.reverse_singleton, List.cons_append,
        List.nil_append]
      rw [closeTo, if_neg (by simp), inductionHypothesis, Node.insertAll_cons]
      simp [Nat.add_comm]

/-! ## States of a merge -/

/-- A merge holds the frames of the last path open and has closed those of the
listed stems, which are all other stems that arrived. -/
structure Reflects
    (arrivals : List (Arrival Weight))
    (closedStems : List (List String))
    (merge : Merge Weight) : Prop where
  offset : merge.offset = offsetAfter arrivals
  opened : merge.opened =
    ((List.range (lastPath arrivals).length).map fun depth =>
      frameOf arrivals (stemAt (lastPath arrivals) depth)).reverse
  closed : merge.closed = Node.insertAll [] (closedStems.map (nodeOf arrivals))
  ordered : closedStems.Pairwise Path.ClosesBefore
  mem_closedStems : ∀ stem, stem ∈ closedStems ↔
    ¬ stem <+: lastPath arrivals ∧ ∃ arrival ∈ arrivals, stem <+: arrival.1.path

theorem reflects_empty : Reflects [] [] (empty : Merge Weight) where
  offset := rfl
  opened := rfl
  closed := rfl
  ordered := List.Pairwise.nil
  mem_closedStems := by simp

omit [Arithmetic Weight] in
/-- The last of sorted arrivals has the greatest path. -/
theorem not_lastPath_lt
    {arrivals : List (Arrival Weight)}
    {arrival : Arrival Weight}
    (sorted : Sorted arrivals)
    (member : arrival ∈ arrivals) :
    ¬ lastPath arrivals < arrival.1.path := by
  cases arrivals using List.reverseRecOn with
  | nil => exact absurd member List.not_mem_nil
  | append_singleton front last =>
      rw [lastPath_append_singleton]
      rcases List.mem_append.mp member with early | final
      · exact (List.pairwise_append.mp sorted).2.2 arrival early last (by simp)
      · rw [List.mem_singleton.mp final]
        exact lt_irrefl last.1.path

omit [Arithmetic Weight] in
/-- The next of sorted arrivals is not below the last one. -/
theorem not_lt_lastPath
    {arrivals : List (Arrival Weight)}
    {arrival : Arrival Weight}
    (sorted : Sorted (arrivals ++ [arrival])) :
    ¬ arrival.1.path < lastPath arrivals := by
  cases arrivals using List.reverseRecOn with
  | nil => exact List.not_lt_nil _
  | append_singleton front last =>
      rw [lastPath_append_singleton]
      exact (List.pairwise_append.mp sorted).2.2 last (by simp) arrival (by simp)

omit [Arithmetic Weight] in
/-- A stem of the last path has a block. -/
theorem block_ne_nil_of_prefix_lastPath
    {arrivals : List (Arrival Weight)}
    {stem : List String}
    (nonempty : stem ≠ [])
    (starts : stem <+: lastPath arrivals) :
    block stem arrivals ≠ [] := by
  cases arrivals using List.reverseRecOn with
  | nil => exact absurd (List.prefix_nil.mp starts) nonempty
  | append_singleton front last =>
      rw [lastPath_append_singleton] at starts
      exact block_ne_nil_iff.mpr ⟨last, by simp, starts⟩

omit [Arithmetic Weight] in
/-- The block of a stem of the last path goes on to the end. -/
theorem before_append_block_of_prefix_lastPath
    {arrivals : List (Arrival Weight)}
    {stem : List String}
    (sorted : Sorted arrivals)
    (nonempty : stem ≠ [])
    (starts : stem <+: lastPath arrivals) :
    before stem arrivals ++ block stem arrivals = arrivals := by
  cases arrivals using List.reverseRecOn with
  | nil => exact absurd (List.prefix_nil.mp starts) nonempty
  | append_singleton front last =>
      rw [lastPath_append_singleton] at starts
      exact before_append_block_of_last sorted List.getLast?_concat starts

namespace Reflects

variable {arrivals : List (Arrival Weight)} {closedStems : List (List String)}
  {merge : Merge Weight}

/-- The open frames spell the last path. -/
theorem path_eq (reflects : Reflects arrivals closedStems merge) :
    merge.path = lastPath arrivals := by
  rw [path, reflects.opened, List.map_reverse, List.reverse_reverse, List.map_map]
  apply List.ext_getElem
  · simp
  · intro depth _ inside
    simp [getLast?_stemAt inside]

/-- Closing down to some depth leaves the outer frames open and closes the
stems of the last path below that depth, the longest first. -/
theorem closeTo_eq
    (reflects : Reflects arrivals closedStems merge)
    (sorted : Sorted arrivals)
    {kept : Nat}
    (bound : kept ≤ (lastPath arrivals).length) :
    closeTo kept merge.offset merge.opened merge.closed =
      (((List.range kept).map fun depth =>
          frameOf arrivals (stemAt (lastPath arrivals) depth)).reverse,
        Node.insertAll []
          ((closedStems ++ closingStems (lastPath arrivals) kept).map (nodeOf arrivals))) := by
  have outerLength : ((List.range kept).map fun depth =>
      frameOf arrivals (stemAt (lastPath arrivals) depth)).length = kept := by simp
  have split := closeTo_range
    (fun depth => frameOf arrivals (stemAt (lastPath arrivals) depth)) merge.offset
    ((List.range kept).map fun depth => frameOf arrivals (stemAt (lastPath arrivals) depth))
    ((lastPath arrivals).length - kept) merge.closed
  rw [outerLength] at split
  rw [reflects.opened, range_eq_append bound, List.map_append, List.reverse_append, split,
    reflects.closed, List.map_append, Node.insertAll_append, closingStems, List.map_map]
  congr 2
  apply List.map_congr_left
  intro depth member
  have inside : depth < (lastPath arrivals).length := by
    simp only [List.mem_reverse, List.mem_range'_1] at member
    omega
  obtain ⟨nonempty, starts⟩ := exists_stemAt_iff.mp ⟨depth, inside, rfl⟩
  rw [Function.comp_apply, nodeOf, length_stemAt inside, Nat.add_sub_cancel, reflects.offset,
    before_append_block_of_prefix_lastPath sorted nonempty starts]

/-- The stems that are closed next come after those closed already. -/
theorem ordered_append
    (reflects : Reflects arrivals closedStems merge)
    (sorted : Sorted arrivals)
    (kept : Nat) :
    (closedStems ++ closingStems (lastPath arrivals) kept).Pairwise Path.ClosesBefore := by
  refine List.pairwise_append.mpr ⟨reflects.ordered, ordered_closingStems _ _, ?_⟩
  intro closed closedMember opened openedMember
  obtain ⟨finished, arrival, arrivalMember, closedStarts⟩ :=
    (reflects.mem_closedStems closed).mp closedMember
  exact Path.closesBefore_of_not_isPrefix closedStarts (mem_closingStems.mp openedMember).1 finished
    (not_lastPath_lt sorted arrivalMember)

end Reflects

/-! ## The next arrival -/

section Next

variable {arrivals : List (Arrival Weight)} {arrival : Arrival Weight}

/-- A frame in common with the last path stays open; the arrival adds to it if
its path ends there. -/
theorem frameOf_append_of_lt_commonLength
    {depth : Nat}
    (common : depth < commonLength (lastPath arrivals) arrival.1.path) :
    frameOf (arrivals ++ [arrival]) (stemAt arrival.1.path depth) =
      if arrival.1.path.length = depth + 1 then
        absorb (frameOf arrivals (stemAt (lastPath arrivals) depth)) arrival
      else
        frameOf arrivals (stemAt (lastPath arrivals) depth) := by
  have inside : depth < arrival.1.path.length := common.trans_le (Path.commonLength_le_right _ _)
  obtain ⟨nonempty, starts⟩ := exists_stemAt_iff.mp ⟨depth, inside, rfl⟩
  have begun : block (stemAt arrival.1.path depth) arrivals ≠ [] :=
    block_ne_nil_of_prefix_lastPath nonempty ((stemAt_prefix_iff inside).mpr common)
  have same : stemAt (lastPath arrivals) depth = stemAt arrival.1.path depth :=
    Path.take_eq_take_of_le_commonLength common
  have ends : arrival.1.path = stemAt arrival.1.path depth ↔ arrival.1.path.length = depth + 1 := by
    constructor
    · intro equal
      rw [equal, length_stemAt inside]
    · intro length
      rw [stemAt, ← length, List.take_length]
  rw [frameOf_append_of_isPrefix begun starts, same]
  exact if_congr ends rfl rfl

/-- A frame beyond the common length is opened by the arrival. -/
theorem frameOf_append_of_commonLength_le
    (sorted : Sorted (arrivals ++ [arrival]))
    {depth : Nat}
    (beyond : commonLength (lastPath arrivals) arrival.1.path ≤ depth)
    (inside : depth < arrival.1.path.length) :
    frameOf (arrivals ++ [arrival]) (stemAt arrival.1.path depth) =
      ⟨arrival.1.path[depth], offsetAfter arrivals, arrival.1.calls, arrival.1.failed,
        arrival.2⟩ := by
  have empty : block (stemAt arrival.1.path depth) arrivals = [] := by
    rw [List.eq_nil_iff_forall_not_mem]
    intro other member
    obtain ⟨otherMember, otherStarts⟩ := mem_block.mp member
    have starts : stemAt arrival.1.path depth <+: lastPath arrivals :=
      Path.prefix_of_between otherStarts (stemAt_isPrefix _ depth)
        (not_lastPath_lt (List.pairwise_append.mp sorted).1 otherMember) (not_lt_lastPath sorted)
    exact absurd ((stemAt_prefix_iff inside).mp starts) (Nat.not_lt.mpr beyond)
  rw [frameOf_append_of_block_eq_nil empty (stemAt_isPrefix _ depth), openedBy,
    getLast?_stemAt inside]
  rfl

/-- An arrival that goes beyond the common length opens the rest of its path. -/
theorem openFrames_eq
    (sorted : Sorted (arrivals ++ [arrival])) :
    (arrival.1.path.drop (commonLength (lastPath arrivals) arrival.1.path)).map (fun label =>
        (⟨label, offsetAfter arrivals, arrival.1.calls, arrival.1.failed, arrival.2⟩ :
          OpenFrame Weight)) =
      (List.range' (commonLength (lastPath arrivals) arrival.1.path)
        (arrival.1.path.length - commonLength (lastPath arrivals) arrival.1.path)).map
          fun depth => frameOf (arrivals ++ [arrival]) (stemAt arrival.1.path depth) := by
  apply List.ext_getElem
  · simp
  · intro index _ bound
    rw [List.length_map, List.length_range'] at bound
    rw [List.getElem_map, List.getElem_map, List.getElem_range', List.getElem_drop, Nat.one_mul,
      frameOf_append_of_commonLength_le sorted (Nat.le_add_right _ index) (by omega)]

/-- What the arrival leaves open are the frames of its path. -/
theorem opened_append
    (sorted : Sorted (arrivals ++ [arrival])) :
    (if commonLength (lastPath arrivals) arrival.1.path = arrival.1.path.length then
        addToLeaf arrival.1 arrival.2
          ((List.range (commonLength (lastPath arrivals) arrival.1.path)).map fun depth =>
            frameOf arrivals (stemAt (lastPath arrivals) depth)).reverse
      else
        openFrames arrival.1 arrival.2 (offsetAfter arrivals)
          ((List.range (commonLength (lastPath arrivals) arrival.1.path)).map fun depth =>
            frameOf arrivals (stemAt (lastPath arrivals) depth)).reverse
          (arrival.1.path.drop (commonLength (lastPath arrivals) arrival.1.path))) =
      ((List.range arrival.1.path.length).map fun depth =>
        frameOf (arrivals ++ [arrival]) (stemAt arrival.1.path depth)).reverse := by
  -- The frames that are not the end of the path of the arrival stay as they are.
  have kept : ∀ count, count ≤ commonLength (lastPath arrivals) arrival.1.path ->
      count < arrival.1.path.length ->
      (List.range count).map (fun depth =>
          frameOf (arrivals ++ [arrival]) (stemAt arrival.1.path depth)) =
        (List.range count).map fun depth =>
          frameOf arrivals (stemAt (lastPath arrivals) depth) := by
    intro count common inside
    apply List.map_congr_left
    intro depth member
    have below : depth < count := List.mem_range.mp member
    rw [frameOf_append_of_lt_commonLength (below.trans_le common), if_neg (by omega)]
  by_cases ends : commonLength (lastPath arrivals) arrival.1.path = arrival.1.path.length
  · rw [if_pos ends, ends]
    cases length : arrival.1.path.length with
    | zero => rfl
    | succ last =>
        have common : last < commonLength (lastPath arrivals) arrival.1.path := by omega
        rw [List.range_succ, List.map_append, List.map_append, List.reverse_append,
          List.reverse_append, kept last common.le (by omega)]
        simp only [List.map_cons, List.map_nil, List.reverse_singleton, List.singleton_append]
        rw [frameOf_append_of_lt_commonLength common, if_pos length]
        rfl
  · have bound := Path.commonLength_le_right (lastPath arrivals) arrival.1.path
    rw [if_neg ends, openFrames, openFrames_eq sorted, range_eq_append bound, List.map_append,
      List.reverse_append, kept _ le_rfl (lt_of_le_of_ne bound ends)]

end Next

/-- After the next arrival the stems that it lacks are closed. -/
theorem Reflects.mem_closedStems_append
    {arrivals : List (Arrival Weight)}
    {closedStems : List (List String)}
    {merge : Merge Weight}
    (reflects : Reflects arrivals closedStems merge)
    {arrival : Arrival Weight}
    (sorted : Sorted (arrivals ++ [arrival]))
    (stem : List String) :
    stem ∈ closedStems ++ closingStems (lastPath arrivals)
        (commonLength (lastPath arrivals) arrival.1.path) ↔
      ¬ stem <+: arrival.1.path ∧ ∃ other ∈ arrivals, stem <+: other.1.path := by
  rw [List.mem_append, reflects.mem_closedStems, mem_closingStems_commonLength]
  constructor
  · rintro (⟨finished, other, member, starts⟩ | ⟨starts, apart⟩)
    · refine ⟨?_, other, member, starts⟩
      intro continues
      exact finished (Path.prefix_of_between starts continues
        (not_lastPath_lt (List.pairwise_append.mp sorted).1 member) (not_lt_lastPath sorted))
    · have nonempty : stem ≠ [] := fun empty => apart (empty ▸ List.nil_prefix)
      have begun := block_ne_nil_of_prefix_lastPath nonempty starts
      exact ⟨apart, block_ne_nil_iff.mp begun⟩
  · rintro ⟨apart, other, member, starts⟩
    by_cases last : stem <+: lastPath arrivals
    · exact Or.inr ⟨last, apart⟩
    · exact Or.inl ⟨last, other, member, starts⟩

/-- The next arrival is merged, and the merge reflects it. -/
theorem Reflects.push
    {arrivals : List (Arrival Weight)}
    {closedStems : List (List String)}
    {merge : Merge Weight}
    (reflects : Reflects arrivals closedStems merge)
    {arrival : Arrival Weight}
    (sorted : Sorted (arrivals ++ [arrival])) :
    ∃ next newlyClosed, merge.push arrival.1 arrival.2 = .ok next ∧
      Reflects (arrivals ++ [arrival]) (closedStems ++ newlyClosed) next := by
  have earlierSorted : Sorted arrivals := (List.pairwise_append.mp sorted).1
  have bound := Path.commonLength_le_left (lastPath arrivals) arrival.1.path
  have closedMember := reflects.mem_closedStems_append sorted
  rw [Merge.push, reflects.path_eq, if_neg (not_lt_lastPath sorted)]
  simp only [reflects.closeTo_eq earlierSorted bound]
  refine ⟨_, closingStems (lastPath arrivals)
    (commonLength (lastPath arrivals) arrival.1.path), rfl, ?_⟩
  constructor
  case offset => rw [offsetAfter_append_singleton, reflects.offset]
  case opened => rw [reflects.offset, opened_append sorted, lastPath_append_singleton]
  case closed =>
    apply congrArg (Node.insertAll [])
    apply List.map_congr_left
    intro stem member
    obtain ⟨apart, arrived⟩ := (closedMember stem).mp member
    have begun := block_ne_nil_iff.mpr arrived
    exact (nodeOf_append_of_not_isPrefix begun apart).symm
  case ordered => exact reflects.ordered_append earlierSorted _
  case mem_closedStems =>
    intro stem
    rw [closedMember, lastPath_append_singleton]
    apply and_congr_right
    intro apart
    simp [apart]

/-- Sorted arrivals are all merged. -/
theorem Reflects.pushAll
    {arrivals : List (Arrival Weight)}
    {closedStems : List (List String)}
    {merge : Merge Weight}
    (reflects : Reflects arrivals closedStems merge)
    (rest : List (Arrival Weight))
    (sorted : Sorted (arrivals ++ rest)) :
    ∃ final finalStems, merge.pushAll rest = .ok final ∧
      Reflects (arrivals ++ rest) finalStems final := by
  induction rest generalizing arrivals closedStems merge with
  | nil =>
      rw [List.append_nil]
      exact ⟨merge, closedStems, rfl, reflects⟩
  | cons arrival rest inductionHypothesis =>
      rw [← List.singleton_append, ← List.append_assoc] at sorted ⊢
      obtain ⟨next, newlyClosed, pushed, nextReflects⟩ :=
        reflects.push (List.pairwise_append.mp sorted).1
      obtain ⟨final, finalStems, merged, finalReflects⟩ := inductionHypothesis nextReflects sorted
      refine ⟨final, finalStems, ?_, finalReflects⟩
      rw [List.singleton_append, Merge.pushAll, pushed]
      exact merged

/-- A finished merge has closed the frame of each stem, in the order of
closing. -/
theorem Reflects.nodes_finish
    {arrivals : List (Arrival Weight)}
    {closedStems : List (List String)}
    {merge : Merge Weight}
    (reflects : Reflects arrivals closedStems merge)
    (sorted : Sorted arrivals) :
    ∃ stems : List (List String),
      merge.finish.nodes = Node.insertAll [] (stems.map (nodeOf arrivals)) ∧
      stems.Pairwise Path.ClosesBefore ∧
      ∀ stem, stem ∈ stems ↔ stem ≠ [] ∧ ∃ arrival ∈ arrivals, stem <+: arrival.1.path := by
  refine ⟨closedStems ++ closingStems (lastPath arrivals) 0, ?_,
    reflects.ordered_append sorted 0, ?_⟩
  · rw [finish, reflects.closeTo_eq sorted (Nat.zero_le _)]
  · intro stem
    rw [List.mem_append, reflects.mem_closedStems, mem_closingStems, List.length_pos_iff]
    constructor
    · rintro (⟨finished, arrived⟩ | ⟨starts, nonempty⟩)
      · exact ⟨fun empty => finished (empty ▸ List.nil_prefix), arrived⟩
      · have begun := block_ne_nil_of_prefix_lastPath nonempty starts
        exact ⟨nonempty, block_ne_nil_iff.mp begun⟩
    · rintro ⟨nonempty, arrived⟩
      by_cases last : stem <+: lastPath arrivals
      · exact Or.inr ⟨last, nonempty⟩
      · exact Or.inl ⟨last, arrived⟩

/-- Merging sorted arrivals succeeds. The tree holds the closed frames of all
their stems, as far as no later one stands at the same place. -/
theorem exists_pushAll
    {arrivals : List (Arrival Weight)}
    (sorted : Sorted arrivals) :
    ∃ (merge : Merge Weight) (stems : List (List String)),
      Merge.empty.pushAll arrivals = .ok merge ∧
      merge.finish.nodes = Node.insertAll [] (stems.map (nodeOf arrivals)) ∧
      merge.finish.total = offsetAfter arrivals ∧
      stems.Pairwise Path.ClosesBefore ∧
      ∀ stem, stem ∈ stems ↔ stem ≠ [] ∧ ∃ arrival ∈ arrivals, stem <+: arrival.1.path := by
  obtain ⟨merge, closedStems, merged, reflects⟩ := reflects_empty.pushAll arrivals sorted
  obtain ⟨stems, nodes, ordered, complete⟩ := reflects.nodes_finish sorted
  exact ⟨merge, stems, merged, nodes, reflects.offset, ordered, complete⟩

end Merge
end FlameProfile
