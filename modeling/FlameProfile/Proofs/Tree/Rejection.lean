import Mathlib
import FlameProfile.Proofs.Tree.Closing

/-!
# Stacks that a merge rejects

A merge can be offered stacks in any order. It takes a stack in if its path is not
below the path that was taken in last, and rejects it otherwise. `path_push` says
which path a merge remembers, `remembers_taken` that after any run it is the path of
the last stack taken in, and so a rejected stack leaves no trace: what is offered
later, and the tree in the end, are as if it had never been offered.
-/

namespace FlameProfile
namespace Merge

variable {Weight : Type}

/-! ## The path that a merge remembers -/

/-- Labels of open frames, outermost first. -/
def labelsOf (opened : List (OpenFrame Weight)) : List String :=
  (opened.map OpenFrame.label).reverse

/-- Frames that are opened stand inside of those that were open, in the order of their labels.
-/
theorem labelsOf_openFrames
    (stack : Stack Weight)
    (delta : Option Weight)
    (offset : Weight)
    (opened : List (OpenFrame Weight))
    (labels : List String) :
    labelsOf (openFrames stack delta offset opened labels) = labelsOf opened ++ labels := by
  rw [labelsOf, openFrames, List.map_append, List.reverse_append, List.map_reverse,
    List.reverse_reverse, List.map_map]
  exact congrArg _ (List.map_id labels)

/-- What an offer comes to: why the stack was rejected, if it was, and the offset
after the offer. -/
structure Reply (Weight : Type) where
  fault : Option UnsortedPath
  offset : Weight
  deriving DecidableEq

/-- Whether the stack was taken in. -/
def Reply.isAccepted (reply : Reply Weight) : Bool :=
  reply.fault.isNone

variable [Arithmetic Weight]

/-- What a stack adds to the innermost frame changes no label. -/
theorem labelsOf_addToLeaf
    (stack : Stack Weight)
    (delta : Option Weight)
    (opened : List (OpenFrame Weight)) :
    labelsOf (addToLeaf stack delta opened) = labelsOf opened := by
  cases opened <;> rfl

/-- Closing leaves the outermost frames open. -/
theorem fst_closeTo
    (kept : Nat)
    (offset : Weight)
    (opened : List (OpenFrame Weight))
    (closed : List (Node Weight)) :
    (closeTo kept offset opened closed).1 = opened.drop (opened.length - kept) := by
  induction opened generalizing closed with
  | nil => simp [closeTo]
  | cons frame below inductionHypothesis =>
      rw [closeTo, List.length_cons]
      split
      next few => rw [Nat.sub_eq_zero_of_le few, List.drop_zero]
      next many =>
        rw [inductionHypothesis, Nat.succ_sub (Nat.not_lt.mp many), List.drop_succ_cons]

/-- Closing frames down to a depth keeps the labels of those above it. -/
theorem labelsOf_fst_closeTo
    {kept : Nat}
    {opened : List (OpenFrame Weight)}
    (bound : kept ≤ opened.length)
    (offset : Weight)
    (closed : List (Node Weight)) :
    labelsOf (closeTo kept offset opened closed).1 = (labelsOf opened).take kept := by
  rw [fst_closeTo, labelsOf, labelsOf, List.map_drop, List.reverse_drop, List.length_map,
    Nat.sub_sub_self bound]

/-- A merge that takes a stack in remembers the path of the stack. -/
theorem path_push
    {merge next : Merge Weight}
    {stack : Stack Weight}
    {delta : Option Weight}
    (pushed : merge.push stack delta = .ok next) :
    next.path = stack.path := by
  have bound := Path.commonLength_le_left merge.path stack.path
  have kept : labelsOf (closeTo (commonLength merge.path stack.path) merge.offset merge.opened
      merge.closed).1 = stack.path.take (commonLength merge.path stack.path) := by
    rw [labelsOf_fst_closeTo (by simpa [path] using bound),
      ← Path.take_eq_take_of_le_commonLength le_rfl]
    rfl
  rw [push] at pushed
  split at pushed
  next => exact absurd pushed (by simp)
  next =>
    rw [← Except.ok.inj pushed]
    change labelsOf (if _ then _ else _) = _
    split
    next ends => rw [labelsOf_addToLeaf, kept, ends, List.take_length]
    next => rw [labelsOf_openFrames, kept, List.take_append_drop]

/-- A stack is rejected if its path is below the one that the merge remembers. -/
theorem push_eq_error_iff
    {merge : Merge Weight}
    {stack : Stack Weight}
    {delta : Option Weight}
    {fault : UnsortedPath} :
    merge.push stack delta = .error fault ↔
      stack.path < merge.path ∧ fault = ⟨merge.path, stack.path⟩ := by
  rw [push]
  split
  next below => simp [below, eq_comm]
  next notBelow => simp [notBelow]

/-! ## Offering stacks in any order -/

/-- Offer a stack, which is taken in or rejected. -/
def offer
    (merge : Merge Weight)
    (arrival : Arrival Weight) : Reply Weight × Merge Weight :=
  match merge.push arrival.1 arrival.2 with
  | .ok next => (⟨none, next.offset⟩, next)
  | .error fault => (⟨some fault, merge.offset⟩, merge)

/-- The merge after stacks were offered one after the other. -/
def after
    (merge : Merge Weight)
    (arrivals : List (Arrival Weight)) : Merge Weight :=
  arrivals.foldl (fun current arrival => (current.offer arrival).2) merge

/-- What each of the offers comes to. -/
def replies (merge : Merge Weight) : List (Arrival Weight) -> List (Reply Weight)
  | [] => []
  | arrival :: rest => (merge.offer arrival).1 :: (merge.offer arrival).2.replies rest

/-- The stacks that were taken in. -/
def taken
    (merge : Merge Weight)
    (arrivals : List (Arrival Weight)) : List (Arrival Weight) :=
  ((arrivals.zip (merge.replies arrivals)).filter fun call => call.2.isAccepted).map Prod.fst

section Offer

variable {merge : Merge Weight} {arrival : Arrival Weight}

/-- A rejected stack leaves the merge as it is. -/
theorem offer_of_lt
    (below : arrival.1.path < merge.path) :
    merge.offer arrival = (⟨some ⟨merge.path, arrival.1.path⟩, merge.offset⟩, merge) := by
  rw [offer, push_eq_error_iff.mpr ⟨below, rfl⟩]

/-- A stack that is not below the last path is taken in and moves the offset by its weight. -/
theorem offer_of_not_lt
    (notBelow : ¬ arrival.1.path < merge.path) :
    ∃ next, merge.push arrival.1 arrival.2 = .ok next ∧
      merge.offer arrival = (⟨none, next.offset⟩, next) ∧
      next.path = arrival.1.path ∧ next.offset = merge.offset + arrival.1.weight := by
  cases pushed : merge.push arrival.1 arrival.2 with
  | error fault => exact absurd (push_eq_error_iff.mp pushed).1 notBelow
  | ok next =>
      refine ⟨next, rfl, by rw [offer, pushed], path_push pushed, ?_⟩
      rw [push, if_neg notBelow] at pushed
      rw [← Except.ok.inj pushed]

/-- A rejected stack is not among those taken in, and the rest fare as without it. -/
theorem taken_cons_of_lt
    (below : arrival.1.path < merge.path)
    (rest : List (Arrival Weight)) :
    merge.taken (arrival :: rest) = merge.taken rest := by
  rw [taken, replies, offer_of_lt below]
  rfl

/-- An accepted stack is the first of those taken in. -/
theorem taken_cons_of_push
    {next : Merge Weight}
    (offered : merge.offer arrival = (⟨none, next.offset⟩, next))
    (rest : List (Arrival Weight)) :
    merge.taken (arrival :: rest) = arrival :: next.taken rest := by
  rw [taken, replies, offered]
  rfl

end Offer

/-! ## One run after another -/

/-- Offers in two parts are offers one after the other. -/
theorem after_append
    (merge : Merge Weight)
    (first second : List (Arrival Weight)) :
    merge.after (first ++ second) = (merge.after first).after second :=
  List.foldl_append

/-- The first offer comes before the others. -/
theorem after_cons
    (merge : Merge Weight)
    (arrival : Arrival Weight)
    (rest : List (Arrival Weight)) :
    merge.after (arrival :: rest) = (merge.offer arrival).2.after rest := rfl

@[simp] theorem taken_nil (merge : Merge Weight) :
    merge.taken [] = [] := rfl

/-- Every offer has one reply. -/
theorem length_replies
    (merge : Merge Weight)
    (arrivals : List (Arrival Weight)) :
    (merge.replies arrivals).length = arrivals.length := by
  induction arrivals generalizing merge with
  | nil => rfl
  | cons arrival rest inductionHypothesis =>
      exact congrArg Nat.succ (inductionHypothesis (merge.offer arrival).2)

/-- The replies to a second part are those of the merge after the first. -/
theorem replies_append
    (merge : Merge Weight)
    (first second : List (Arrival Weight)) :
    merge.replies (first ++ second) =
      merge.replies first ++ (merge.after first).replies second := by
  induction first generalizing merge with
  | nil => rfl
  | cons arrival rest inductionHypothesis =>
      exact congrArg (List.cons _) (inductionHypothesis (merge.offer arrival).2)

/-- The stacks taken in of a second part are those that the merge takes in after the first. -/
theorem taken_append
    (merge : Merge Weight)
    (first second : List (Arrival Weight)) :
    merge.taken (first ++ second) = merge.taken first ++ (merge.after first).taken second := by
  rw [taken, replies_append, List.zip_append (length_replies merge first).symm, List.filter_append,
    List.map_append]
  rfl

/-- Offering what was taken in once more does the same, and nothing is rejected. -/
theorem offered_again
    (merge : Merge Weight)
    (arrivals : List (Arrival Weight)) :
    merge.replies (merge.taken arrivals) =
        (merge.replies arrivals).filter Reply.isAccepted ∧
      merge.pushAll (merge.taken arrivals) = .ok (merge.after arrivals) := by
  induction arrivals generalizing merge with
  | nil => exact ⟨rfl, rfl⟩
  | cons arrival rest inductionHypothesis =>
      by_cases below : arrival.1.path < merge.path
      · obtain ⟨sameReplies, merged⟩ := inductionHypothesis merge
        rw [taken_cons_of_lt below, replies, after_cons, offer_of_lt below]
        exact ⟨sameReplies, merged⟩
      · obtain ⟨next, pushed, offered, -⟩ := offer_of_not_lt below
        obtain ⟨sameReplies, merged⟩ := inductionHypothesis next
        rw [taken_cons_of_push offered, replies, replies, after_cons, offered, pushAll, pushed]
        exact ⟨congrArg (List.cons _) sameReplies, merged⟩

/-- Stacks that are merged without a fault are all taken in. -/
theorem after_of_pushAll
    {merge final : Merge Weight}
    {arrivals : List (Arrival Weight)}
    (merged : merge.pushAll arrivals = .ok final) :
    merge.after arrivals = final := by
  induction arrivals generalizing merge with
  | nil => exact Except.ok.inj merged
  | cons arrival rest inductionHypothesis =>
      rw [pushAll] at merged
      split at merged
      next => exact absurd merged (by simp)
      next next pushed =>
        rw [after_cons, offer, pushed]
        exact inductionHypothesis merged

/-- After any run a merge remembers the path of the last stack taken in, and its
offset is the weight of all of them. -/
theorem remembers_taken (arrivals : List (Arrival Weight)) :
    (empty.after arrivals).path = lastPath (empty.taken arrivals) ∧
      (empty.after arrivals).offset = offsetAfter (empty.taken arrivals) := by
  induction arrivals using List.reverseRecOn with
  | nil => exact ⟨rfl, rfl⟩
  | append_singleton front arrival inductionHypothesis =>
      obtain ⟨samePath, sameOffset⟩ := inductionHypothesis
      rw [after_append, after_cons, taken_append]
      by_cases below : arrival.1.path < (empty.after front).path
      · rw [taken_cons_of_lt below, taken_nil, List.append_nil, offer_of_lt below]
        exact ⟨samePath, sameOffset⟩
      · obtain ⟨next, -, offered, path, offset⟩ := offer_of_not_lt below
        rw [taken_cons_of_push offered, taken_nil, offered, lastPath_append_singleton,
          offsetAfter_append_singleton, ← sameOffset]
        exact ⟨path, offset⟩

/-- A stack is rejected exactly if its path is below that of the last stack taken in. -/
theorem isAccepted_offer_iff
    (earlier : List (Arrival Weight))
    (arrival : Arrival Weight) :
    ((empty.after earlier).offer arrival).1.isAccepted = false ↔
      arrival.1.path < lastPath (empty.taken earlier) := by
  rw [← (remembers_taken earlier).1]
  by_cases below : arrival.1.path < (empty.after earlier).path
  · rw [offer_of_lt below]
    exact iff_of_true rfl below
  · obtain ⟨next, -, offered, -⟩ := offer_of_not_lt below
    rw [offered]
    exact iff_of_false Bool.true_eq_false.mp below

/-- A stack is rejected exactly if its path is below that of the last stack taken in.
The offset stays, and what the other stacks come to is the same without it. So a run
and the run of what it took in differ in nothing but the rejections. -/
theorem rejects_cleanly (arrivals : List (Arrival Weight)) :
    (∀ earlier arrival later, arrivals = earlier ++ arrival :: later →
      ∃ reply, (empty.replies arrivals)[earlier.length]? = some reply ∧
        (reply.isAccepted = false ↔ arrival.1.path < lastPath (empty.taken earlier)) ∧
        (reply.isAccepted = false →
          reply.fault = some ⟨lastPath (empty.taken earlier), arrival.1.path⟩ ∧
          reply.offset = (empty.after earlier).offset ∧
          (empty.replies arrivals).eraseIdx earlier.length = empty.replies (earlier ++ later) ∧
          empty.after arrivals = empty.after (earlier ++ later))) ∧
    empty.replies (empty.taken arrivals) = (empty.replies arrivals).filter Reply.isAccepted ∧
    (empty.after (empty.taken arrivals)).finish = (empty.after arrivals).finish := by
  obtain ⟨sameReplies, merged⟩ := empty.offered_again arrivals
  refine ⟨?_, sameReplies, congrArg finish (after_of_pushAll merged)⟩
  rintro earlier arrival later rfl
  have place := length_replies empty earlier
  have listed : empty.replies (earlier ++ arrival :: later) = empty.replies earlier ++
      ((empty.after earlier).offer arrival).1 ::
        ((empty.after earlier).offer arrival).2.replies later :=
    replies_append _ _ _
  refine ⟨((empty.after earlier).offer arrival).1, ?_, isAccepted_offer_iff earlier arrival, ?_⟩
  · rw [listed, ← place, List.getElem?_append_right le_rfl, Nat.sub_self, List.getElem?_cons_zero]
  · intro rejected
    have path := (remembers_taken earlier).1
    have below : arrival.1.path < (empty.after earlier).path :=
      path ▸ (isAccepted_offer_iff earlier arrival).mp rejected
    rw [listed, after_append, after_append, after_cons, replies_append, ← path, ← place,
      offer_of_lt below]
    refine ⟨rfl, rfl, ?_, rfl⟩
    rw [List.eraseIdx_append_of_length_le le_rfl, Nat.sub_self, List.eraseIdx_cons_zero]

/-- Stacks of which the third and the fifth come too late. -/
def lateArrivals : List (Arrival Rat) :=
  [ (⟨["", "b"], 1, 1, false⟩, some 1), (⟨["", "b", "c"], 2, 1, false⟩, none)
  , (⟨["", "b"], 4, 3, true⟩, none), (⟨["", "b", "c"], 8, 5, true⟩, some 2)
  , (⟨["", "a"], 16, 1, false⟩, some 3), (⟨["", "d"], 32, 1, false⟩, none) ]

theorem rejects_cleanly_lateArrivals :
    ["", "b"] < lastPath (empty.taken (lateArrivals.take 2)) ∧
    ∃ reply, (empty.replies lateArrivals)[2]? = some reply ∧
      reply.isAccepted = false ∧
      reply.fault = some ⟨lastPath (empty.taken (lateArrivals.take 2)), ["", "b"]⟩ ∧
      reply.offset = (empty.after (lateArrivals.take 2)).offset ∧
      (empty.replies lateArrivals).eraseIdx 2 =
        empty.replies (lateArrivals.take 2 ++ lateArrivals.drop 3) ∧
      empty.after lateArrivals = empty.after (lateArrivals.take 2 ++ lateArrivals.drop 3) := by
  have late : ["", "b"] < lastPath (empty.taken (lateArrivals.take 2)) := by decide +kernel
  obtain ⟨reply, answered, rejected_iff, rejected⟩ :=
    (rejects_cleanly lateArrivals).1 (lateArrivals.take 2) (⟨["", "b"], 4, 3, true⟩, none)
      (lateArrivals.drop 3) rfl
  exact ⟨late, reply, answered, rejected_iff.mpr late, rejected (rejected_iff.mpr late)⟩

end Merge
end FlameProfile
