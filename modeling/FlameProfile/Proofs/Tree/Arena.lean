import Mathlib
import FlameProfile.Proofs.Arithmetic.Ordered
import FlameProfile.Tree.Node

/-!
# The arena of closed frames

Closed frames are put one after the other into a list in which no two frames
stand at the same place, a frame taking the place of the one that stood there.
Of the frames of one place the last one remains; frames at places of their own
all remain, in the order in which they come.
-/

namespace FlameProfile
namespace Node

variable {Weight : Type} [Arithmetic Weight]

/-- Two frames share label, depth and end offset. -/
def SamePlace (first second : Node Weight) : Prop :=
  first.label = second.label ∧ first.depth = second.depth ∧ first.finish = second.finish

omit [Arithmetic Weight] in
theorem samePlace_self (node : Node Weight) : SamePlace node node :=
  ⟨rfl, rfl, rfl⟩

omit [Arithmetic Weight] in
/-- To be at the same place goes both ways. -/
theorem SamePlace.symm
    {first second : Node Weight}
    (same : SamePlace first second) :
    SamePlace second first :=
  ⟨same.1.symm, same.2.1.symm, same.2.2.symm⟩

omit [Arithmetic Weight] in
/-- Frames at the place of a third one share their place. -/
theorem SamePlace.trans
    {first second third : Node Weight}
    (firstSame : SamePlace first second)
    (secondSame : SamePlace second third) :
    SamePlace first third :=
  ⟨firstSame.1.trans secondSame.1, firstSame.2.1.trans secondSame.2.1,
    firstSame.2.2.trans secondSame.2.2⟩

/-- Put frames into a list, one after the other. -/
def insertAll (kept nodes : List (Node Weight)) : List (Node Weight) :=
  nodes.foldl (fun kept node => node.insertInto kept) kept

@[simp] theorem insertAll_nil (kept : List (Node Weight)) :
    insertAll kept [] = kept := rfl

/-- The first frame is put in before the others. -/
theorem insertAll_cons
    (kept nodes : List (Node Weight))
    (node : Node Weight) :
    insertAll kept (node :: nodes) = insertAll (node.insertInto kept) nodes := rfl

/-- Frames of two lists are put in one list after the other. -/
theorem insertAll_append
    (kept first second : List (Node Weight)) :
    insertAll kept (first ++ second) = insertAll (insertAll kept first) second :=
  List.foldl_append

/-- What stands in a list after a frame was put into it is the frame or stood there
before. -/
theorem eq_or_mem_of_mem_insertInto
    {node asked : Node Weight}
    {kept : List (Node Weight)}
    (member : asked ∈ node.insertInto kept) :
    asked = node ∨ asked ∈ kept := by
  induction kept with
  | nil => exact Or.inl (List.mem_singleton.mp member)
  | cons other rest inductionHypothesis =>
      rw [insertInto] at member
      split at member
      next =>
        rcases List.mem_cons.mp member with isNode | old
        · exact Or.inl isNode
        · exact Or.inr (List.mem_cons_of_mem other old)
      next =>
        rcases List.mem_cons.mp member with rfl | later
        · exact Or.inr List.mem_cons_self
        · exact (inductionHypothesis later).imp_right (List.mem_cons_of_mem other)

variable [OrderedArithmetic Weight]

/-- A frame is found at the label, depth and end of another if both stand at one place. -/
theorem isAt_iff
    (node other : Node Weight) :
    node.isAt other.label other.depth other.finish = true ↔ SamePlace node other := by
  simp [isAt, SamePlace, OrderedArithmetic.identical_iff, and_assoc]

/-- No two frames of the list stand at the same place. -/
def PlacesDistinct (nodes : List (Node Weight)) : Prop :=
  nodes.Pairwise fun first second => ¬ SamePlace first second

/-- A frame at a place of its own is put at the end. -/
theorem insertInto_of_new
    (node : Node Weight)
    {kept : List (Node Weight)}
    (isNew : ∀ other ∈ kept, ¬ SamePlace other node) :
    node.insertInto kept = kept ++ [node] := by
  induction kept with
  | nil => rfl
  | cons other rest inductionHypothesis =>
      have notThere : ¬ other.isAt node.label node.depth node.finish = true := by
        rw [isAt_iff]
        exact isNew other List.mem_cons_self
      rw [insertInto, if_neg notThere, List.cons_append,
        inductionHypothesis fun later member => isNew later (List.mem_cons_of_mem other member)]

/-- Insertion puts a frame in and removes what stood at its place. -/
theorem mem_insertInto
    {node asked : Node Weight}
    {kept : List (Node Weight)}
    (distinct : PlacesDistinct kept) :
    asked ∈ node.insertInto kept ↔ asked = node ∨ (asked ∈ kept ∧ ¬ SamePlace asked node) := by
  induction kept with
  | nil => simp [insertInto]
  | cons other rest inductionHypothesis =>
      obtain ⟨otherDistinct, restDistinct⟩ := List.pairwise_cons.mp distinct
      rw [insertInto]
      split
      next there =>
        rw [isAt_iff] at there
        have apart : ∀ later ∈ rest, ¬ SamePlace later node := by
          intro later member same
          exact otherDistinct later member (there.trans same.symm)
        simp only [List.mem_cons]
        constructor
        · rintro (equal | member)
          · exact Or.inl equal
          · exact Or.inr ⟨Or.inr member, apart asked member⟩
        · rintro (equal | ⟨rfl | member, elsewhere⟩)
          · exact Or.inl equal
          · exact absurd there elsewhere
          · exact Or.inr member
      next elsewhere =>
        rw [isAt_iff] at elsewhere
        rw [List.mem_cons, List.mem_cons, inductionHypothesis restDistinct]
        constructor
        · rintro (rfl | equal | ⟨member, apart⟩)
          · exact Or.inr ⟨Or.inl rfl, elsewhere⟩
          · exact Or.inl equal
          · exact Or.inr ⟨Or.inr member, apart⟩
        · rintro (equal | ⟨equal | member, apart⟩)
          · exact Or.inr (Or.inl equal)
          · exact Or.inl equal
          · exact Or.inr (Or.inr ⟨member, apart⟩)

/-- A frame that is put in takes a place of its own or the one of what stood there. -/
theorem placesDistinct_insertInto
    (node : Node Weight)
    {kept : List (Node Weight)}
    (distinct : PlacesDistinct kept) :
    PlacesDistinct (node.insertInto kept) := by
  induction kept with
  | nil => exact List.pairwise_singleton _ _
  | cons other rest inductionHypothesis =>
      obtain ⟨otherDistinct, restDistinct⟩ := List.pairwise_cons.mp distinct
      rw [insertInto]
      split
      next there =>
        rw [isAt_iff] at there
        refine List.pairwise_cons.mpr ⟨?_, restDistinct⟩
        intro later member same
        exact otherDistinct later member (there.trans same)
      next elsewhere =>
        rw [isAt_iff] at elsewhere
        refine List.pairwise_cons.mpr ⟨?_, inductionHypothesis restDistinct⟩
        intro later member
        rcases (mem_insertInto restDistinct).mp member with rfl | ⟨old, _⟩
        · exact elsewhere
        · exact otherDistinct later old

/-- Frames at places of their own all remain, in the order in which they come. -/
theorem insertAll_of_placesDistinct
    {kept nodes : List (Node Weight)}
    (distinct : PlacesDistinct (kept ++ nodes)) :
    insertAll kept nodes = kept ++ nodes := by
  induction nodes generalizing kept with
  | nil => rw [insertAll_nil, List.append_nil]
  | cons node rest inductionHypothesis =>
      have isNew : ∀ other ∈ kept, ¬ SamePlace other node := by
        intro other member
        exact (List.pairwise_append.mp distinct).2.2 other member node List.mem_cons_self
      rw [insertAll_cons, insertInto_of_new node isNew, inductionHypothesis, List.append_assoc]
      · rfl
      · rwa [List.append_assoc]

/-- The nodes that remain stand at different places. -/
theorem placesDistinct_insertAll
    {kept : List (Node Weight)}
    (nodes : List (Node Weight))
    (distinct : PlacesDistinct kept) :
    PlacesDistinct (insertAll kept nodes) := by
  induction nodes generalizing kept with
  | nil => exact distinct
  | cons node rest inductionHypothesis =>
      exact inductionHypothesis (placesDistinct_insertInto node distinct)

/-- A frame remains if it is put in and no later one stands at its place. -/
theorem mem_insertAll_iff
    {asked : Node Weight}
    (nodes : List (Node Weight)) :
    asked ∈ insertAll [] nodes ↔
      ∃ earlier later, nodes = earlier ++ asked :: later ∧
        ∀ other ∈ later, ¬ SamePlace asked other := by
  induction nodes using List.reverseRecOn with
  | nil => simp
  | append_singleton front node inductionHypothesis =>
      have distinct : PlacesDistinct (insertAll [] front) :=
        placesDistinct_insertAll front List.Pairwise.nil
      rw [insertAll_append, insertAll_cons, insertAll_nil, mem_insertInto distinct,
        inductionHypothesis]
      constructor
      · rintro (rfl | ⟨⟨earlier, later, rfl, apart⟩, elsewhere⟩)
        · exact ⟨front, [], rfl, by simp⟩
        · refine ⟨earlier, later ++ [node], by simp, ?_⟩
          intro other member
          rcases List.mem_append.mp member with old | last
          · exact apart other old
          · rwa [List.mem_singleton.mp last]
      · rintro ⟨earlier, later, split, apart⟩
        rcases List.eq_nil_or_concat later with rfl | ⟨rest, last, rfl⟩
        · obtain ⟨_, lasts⟩ := List.append_inj' split rfl
          exact Or.inl (List.singleton_inj.mp lasts).symm
        · rw [List.concat_eq_append] at split apart
          rw [← List.cons_append, ← List.append_assoc] at split
          obtain ⟨fronts, lasts⟩ := List.append_inj' split rfl
          rw [List.singleton_inj.mp lasts]
          refine Or.inr ⟨⟨earlier, rest, fronts, ?_⟩, apart last (by simp)⟩
          intro other member
          exact apart other (List.mem_append_left [last] member)

/-- What remains was put in. -/
theorem mem_of_mem_insertAll
    {asked : Node Weight}
    {nodes : List (Node Weight)}
    (member : asked ∈ insertAll [] nodes) :
    asked ∈ nodes := by
  obtain ⟨earlier, later, rfl, _⟩ := (mem_insertAll_iff nodes).mp member
  exact List.mem_append_right earlier List.mem_cons_self

/-- At the place of every frame that is put in, some frame remains. -/
theorem exists_samePlace_insertAll
    {asked : Node Weight}
    {nodes : List (Node Weight)}
    (member : asked ∈ nodes) :
    ∃ kept ∈ insertAll [] nodes, SamePlace kept asked := by
  induction nodes using List.reverseRecOn with
  | nil => exact absurd member List.not_mem_nil
  | append_singleton front node inductionHypothesis =>
      have distinct : PlacesDistinct (insertAll [] front) :=
        placesDistinct_insertAll front List.Pairwise.nil
      have remains : ∀ other, other ∈ insertAll [] (front ++ [node]) ↔
          other = node ∨ (other ∈ insertAll [] front ∧ ¬ SamePlace other node) := by
        intro other
        rw [insertAll_append, insertAll_cons, insertAll_nil, mem_insertInto distinct]
      rcases List.mem_append.mp member with inFront | isLast
      · obtain ⟨kept, keptMember, same⟩ := inductionHypothesis inFront
        by_cases replaced : SamePlace kept node
        · exact ⟨node, (remains node).mpr (.inl rfl), replaced.symm.trans same⟩
        · exact ⟨kept, (remains kept).mpr (.inr ⟨keptMember, replaced⟩), same⟩
      · rw [List.mem_singleton.mp isLast]
        exact ⟨node, (remains node).mpr (.inl rfl), samePlace_self node⟩

end Node
end FlameProfile
