import Mathlib
import FlameProfile.Arithmetic.Rational
import FlameProfile.Proofs.Tree.Rejection

/-!
# What holds of a merge at all times

A merge that is offered stacks in any order, and rejects some of them, is at all times in
order. Its open frames spell the path that was taken in last. Without negative weights the
open frames began one inside the other, no later than the offset, and every closed frame
ended before the open frame of its depth began. `IsOrdered` says so of one state,
`IsOrdered.push` that the next stack keeps it, and `isOrdered_after` that any run ends in
such a state.

The path need not be read off the open frames. A merge that remembers it in a place of its
own, and compares and shortens paths there, does the same (`Remembering.after_ofMerge`).
-/

namespace FlameProfile
namespace Merge

variable {Weight : Type}

/-! ## The offsets where frames were opened -/

/-- Offsets where open frames were opened, the outermost first. -/
def startsOf (opened : List (OpenFrame Weight)) : List Weight :=
  (opened.map OpenFrame.start).reverse

theorem start_mem_startsOf
    {frame : OpenFrame Weight}
    {opened : List (OpenFrame Weight)}
    (isOpen : frame ∈ opened) :
    frame.start ∈ startsOf opened :=
  List.mem_reverse.mpr (List.mem_map_of_mem isOpen)

theorem startsOf_openFrames
    (stack : Stack Weight)
    (delta : Option Weight)
    (offset : Weight)
    (opened : List (OpenFrame Weight))
    (labels : List String) :
    startsOf (openFrames stack delta offset opened labels) =
      startsOf opened ++ List.replicate labels.length offset := by
  rw [startsOf, openFrames, List.map_append, List.reverse_append, List.map_reverse,
    List.reverse_reverse, List.map_map]
  exact congrArg _ List.map_const'

variable [Arithmetic Weight]

theorem startsOf_addToLeaf
    (stack : Stack Weight)
    (delta : Option Weight)
    (opened : List (OpenFrame Weight)) :
    startsOf (addToLeaf stack delta opened) = startsOf opened := by
  cases opened <;> rfl

theorem startsOf_fst_closeTo
    {kept : Nat}
    {opened : List (OpenFrame Weight)}
    (bound : kept ≤ opened.length)
    (offset : Weight)
    (closed : List (Node Weight)) :
    startsOf (closeTo kept offset opened closed).1 = (startsOf opened).take kept := by
  rw [fst_closeTo, startsOf, startsOf, List.map_drop, List.reverse_drop, List.length_map,
    Nat.sub_sub_self bound]

/-- A frame that is closed was closed before, or it is an open one beyond the depth down to
which frames are closed. -/
theorem mem_snd_closeTo
    {kept : Nat}
    {offset : Weight}
    {opened : List (OpenFrame Weight)}
    {closed : List (Node Weight)}
    {node : Node Weight}
    (member : node ∈ (closeTo kept offset opened closed).2) :
    node ∈ closed ∨ ∃ frame ∈ opened, ∃ depth, kept ≤ depth ∧ node = close frame depth offset := by
  induction opened generalizing closed with
  | nil => exact Or.inl member
  | cons frame below inductionHypothesis =>
      rw [closeTo] at member
      split at member
      next => exact Or.inl member
      next many =>
        rcases inductionHypothesis member with before | ⟨other, isOpen, depth, beyond, isNode⟩
        · refine (Node.eq_or_mem_of_mem_insertInto before).symm.imp_right ?_
          intro isNode
          exact ⟨frame, List.mem_cons_self, below.length, Nat.not_lt.mp many, isNode⟩
        · exact Or.inr ⟨other, List.mem_cons_of_mem frame isOpen, depth, beyond, isNode⟩

/-- A merge that takes a stack in keeps the frames in common with its path and opens the
others at the offset. -/
theorem startsOf_push
    {merge next : Merge Weight}
    {stack : Stack Weight}
    {delta : Option Weight}
    (pushed : merge.push stack delta = .ok next) :
    startsOf next.opened =
      (startsOf merge.opened).take (commonLength merge.path stack.path) ++
        List.replicate (stack.path.length - commonLength merge.path stack.path) merge.offset := by
  have bound : commonLength merge.path stack.path ≤ merge.opened.length := by
    simpa [path] using Path.commonLength_le_left merge.path stack.path
  rw [push] at pushed
  split at pushed
  next => exact absurd pushed (by simp)
  next =>
    rw [← Except.ok.inj pushed]
    change startsOf (if _ then _ else _) = _
    split
    next ends =>
      rw [startsOf_addToLeaf, startsOf_fst_closeTo bound, ends, Nat.sub_self, List.replicate_zero,
        List.append_nil]
    next => rw [startsOf_openFrames, startsOf_fst_closeTo bound, List.length_drop]

theorem closed_push
    {merge next : Merge Weight}
    {stack : Stack Weight}
    {delta : Option Weight}
    (pushed : merge.push stack delta = .ok next) :
    next.closed = (closeTo (commonLength merge.path stack.path) merge.offset merge.opened
      merge.closed).2 ∧ next.offset = merge.offset + stack.weight := by
  rw [push] at pushed
  split at pushed
  next => exact absurd pushed (by simp)
  next =>
    rw [← Except.ok.inj pushed]
    exact ⟨rfl, rfl⟩

/-! ## Offsets in order -/

/-- The offsets of a merge are in order. -/
structure IsOrdered (merge : Merge Rat) : Prop where
  /-- No open frame began after one inside it. -/
  nested : (startsOf merge.opened).Pairwise (· ≤ ·)
  /-- Every open frame has begun. -/
  begun : ∀ start ∈ startsOf merge.opened, start ≤ merge.offset
  /-- Every closed frame has ended, and not before it began. -/
  ended : ∀ node ∈ merge.closed, ∃ start,
    node.start = some start ∧ start ≤ node.finish ∧ node.finish ≤ merge.offset
  /-- A closed frame ended before the open frame of its depth began. -/
  apart : ∀ node ∈ merge.closed, ∀ start,
    (startsOf merge.opened)[node.depth]? = some start → node.finish ≤ start

namespace IsOrdered

theorem empty : IsOrdered empty where
  nested := List.Pairwise.nil
  begun _ member := absurd member List.not_mem_nil
  ended _ member := absurd member List.not_mem_nil
  apart _ member := absurd member List.not_mem_nil

variable {merge : Merge Rat}

/-- What closing at the offset closes has ended by then. -/
theorem ended_closeTo
    (ordered : merge.IsOrdered)
    {kept : Nat}
    {node : Node Rat}
    (member : node ∈ (closeTo kept merge.offset merge.opened merge.closed).2) :
    ∃ start, node.start = some start ∧ start ≤ node.finish ∧ node.finish ≤ merge.offset := by
  rcases mem_snd_closeTo member with before | ⟨frame, isOpen, depth, -, rfl⟩
  · exact ordered.ended node before
  · exact ⟨frame.start, rfl, ordered.begun _ (start_mem_startsOf isOpen), le_rfl⟩

/-- The next stack keeps the offsets in order. -/
theorem push
    (ordered : merge.IsOrdered)
    {next : Merge Rat}
    {stack : Stack Rat}
    {delta : Option Rat}
    (pushed : merge.push stack delta = .ok next)
    (nonnegative : 0 ≤ stack.weight) :
    next.IsOrdered := by
  have starts := startsOf_push pushed
  obtain ⟨closed, offset⟩ := closed_push pushed
  have later : merge.offset ≤ next.offset := by
    rw [offset]
    exact le_add_of_nonneg_right nonnegative
  set common := commonLength merge.path stack.path
  have kept : ∀ start ∈ (startsOf merge.opened).take common, start ≤ merge.offset :=
    fun start member => ordered.begun start (List.mem_of_mem_take member)
  constructor
  case nested =>
    rw [starts, List.pairwise_append]
    refine ⟨ordered.nested.sublist (List.take_sublist common _), ?_, ?_⟩
    · exact List.pairwise_replicate.mpr (Or.inr le_rfl)
    · intro outer isOuter inner isInner
      rw [List.eq_of_mem_replicate isInner]
      exact kept outer isOuter
  case begun =>
    intro start member
    rw [starts, List.mem_append] at member
    rcases member with isKept | isNew
    · exact (kept start isKept).trans later
    · rw [List.eq_of_mem_replicate isNew]
      exact later
  case ended =>
    intro node member
    rw [closed] at member
    obtain ⟨start, known, forward, past⟩ := ordered.ended_closeTo member
    exact ⟨start, known, forward, past.trans later⟩
  case apart =>
    intro node member start isOpen
    rw [closed] at member
    -- A frame that was kept open was open already; any other one opens at the offset, where
    -- everything that is closed has ended.
    rw [starts] at isOpen
    by_cases isKept : node.depth < ((startsOf merge.opened).take common).length
    · rw [List.getElem?_append_left isKept] at isOpen
      rw [List.length_take, lt_min_iff] at isKept
      rw [List.getElem?_take_of_lt isKept.1] at isOpen
      rcases mem_snd_closeTo member with before | ⟨frame, -, depth, beyond, rfl⟩
      · exact ordered.apart node before start isOpen
      · exact absurd isKept.1 (Nat.not_lt.mpr beyond)
    · rw [List.getElem?_append_right (Nat.not_lt.mp isKept)] at isOpen
      rw [List.eq_of_mem_replicate (List.mem_of_getElem? isOpen)]
      obtain ⟨-, -, -, ended⟩ := ordered.ended_closeTo member
      exact ended

end IsOrdered

/-- Whatever is offered to a merge, its offsets stay in order. -/
theorem isOrdered_after
    {arrivals : List (Arrival Rat)}
    (nonnegative : ∀ arrival ∈ arrivals, 0 ≤ arrival.1.weight) :
    (empty.after arrivals).IsOrdered := by
  induction arrivals using List.reverseRecOn with
  | nil => exact IsOrdered.empty
  | append_singleton front arrival inductionHypothesis =>
      have ordered := inductionHypothesis fun other member =>
        nonnegative other (List.mem_append_left [arrival] member)
      rw [after_append, after_cons]
      by_cases below : arrival.1.path < (empty.after front).path
      · rw [offer_of_lt below]
        exact ordered
      · obtain ⟨next, pushed, offered, -⟩ := offer_of_not_lt below
        rw [offered]
        exact ordered.push pushed (nonnegative arrival (by simp))

/-! ## A path of its own -/

/-- A merge with the path that was taken in last beside its frames. -/
structure Remembering (Weight : Type) where
  previous : List String
  merge : Merge Weight
  deriving DecidableEq

namespace Remembering

/-- Nothing merged yet. -/
def empty : Remembering Weight where
  previous := []
  merge := Merge.empty

/-- Merge the next stack. It is compared with the remembered path, which says how many
frames stay open, and is remembered in its place. -/
def push
    (state : Remembering Weight)
    (stack : Stack Weight)
    (delta : Option Weight) : Except UnsortedPath (Remembering Weight) :=
  if stack.path < state.previous then
    .error ⟨state.previous, stack.path⟩
  else
    let offset := state.merge.offset
    let common := commonLength state.previous stack.path
    let (kept, closed) := closeTo common offset state.merge.opened state.merge.closed
    let grown := if common = stack.path.length then addToLeaf stack delta kept else kept
    let opened := openFrames stack delta offset grown (stack.path.drop common)
    .ok ⟨stack.path, closed, opened, offset + stack.weight⟩

/-- The state after stacks were offered one after the other. -/
def after
    (state : Remembering Weight)
    (arrivals : List (Arrival Weight)) : Remembering Weight :=
  arrivals.foldl (fun current arrival =>
    match current.push arrival.1 arrival.2 with
    | .ok next => next
    | .error _ => current) state

/-- A merge with the path that its open frames spell. -/
def ofMerge (merge : Merge Weight) : Remembering Weight where
  previous := merge.path
  merge := merge

/-- Where the remembered path is that of the open frames, the next stack is merged or
rejected as it is by them, and the path of the open frames is remembered again. -/
theorem push_ofMerge
    (merge : Merge Weight)
    (arrival : Arrival Weight) :
    (ofMerge merge).push arrival.1 arrival.2 =
      (merge.push arrival.1 arrival.2).map ofMerge := by
  by_cases below : arrival.1.path < merge.path
  · rw [push_eq_error_iff.mpr ⟨below, rfl⟩]
    exact if_pos below
  · obtain ⟨next, pushed, -, path, -⟩ := offer_of_not_lt below
    rw [pushed, Except.map]
    simp only [ofMerge]
    rw [path]
    rw [Merge.push, if_neg below] at pushed
    rw [push, if_neg below, ← Except.ok.inj pushed]
    by_cases ends : commonLength merge.path arrival.1.path = arrival.1.path.length
    · simp only [ends, if_true, List.drop_length]
      rfl
    · simp only [ends, if_false]

theorem after_ofMerge
    (merge : Merge Weight)
    (arrivals : List (Arrival Weight)) :
    (ofMerge merge).after arrivals = ofMerge (merge.after arrivals) := by
  refine List.foldl_hom ofMerge ?_
  intro current arrival
  rw [push_ofMerge, offer]
  cases current.push arrival.1 arrival.2 <;> rfl

end Remembering

/-! ## Every reachable state -/

/-- Whatever stacks are offered, and however many of them are rejected, the path that a
merge remembers and the labels of its open frames are the last path taken in. If no stack
has a negative weight, the offsets are in order as well. -/
theorem keeps_path_and_order :
    (∀ {Weight : Type} [Arithmetic Weight] (arrivals : List (Arrival Weight)),
      Remembering.empty.after arrivals =
          ⟨lastPath (empty.taken arrivals), empty.after arrivals⟩ ∧
        labelsOf (empty.after arrivals).opened = lastPath (empty.taken arrivals)) ∧
    ∀ arrivals : List (Arrival Rat), (∀ arrival ∈ arrivals, 0 ≤ arrival.1.weight) →
      (empty.after arrivals).IsOrdered := by
  refine ⟨?_, fun arrivals => isOrdered_after⟩
  intro Weight _ arrivals
  have path := (remembers_taken arrivals).1
  refine ⟨?_, path⟩
  rw [← path]
  exact Remembering.after_ofMerge empty arrivals

theorem keeps_path_and_order_lateArrivals :
    (∀ arrival ∈ lateArrivals, 0 ≤ arrival.1.weight) ∧
    labelsOf (empty.after lateArrivals).opened = ["", "d"] ∧
    startsOf (empty.after lateArrivals).opened = [0, 11] ∧
    (empty.after lateArrivals).IsOrdered := by
  have nonnegative : ∀ arrival ∈ lateArrivals, 0 ≤ arrival.1.weight := by decide +kernel
  have path := (keeps_path_and_order.1 lateArrivals).2
  refine ⟨nonnegative, path.trans (by decide +kernel), by decide +kernel, ?_⟩
  exact keeps_path_and_order.2 lateArrivals nonnegative

end Merge
end FlameProfile
