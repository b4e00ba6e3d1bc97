import Mathlib
import FlameProfile.Tree.Merge

/-!
# Paths in lexicographic order

A frame of a flame tree stands for a stem: a beginning that some paths share.
In lexicographic order the paths with one stem are neighbours, and a stem that
precedes another one, without being its beginning, has all its paths before the
paths of the other. `ClosesBefore` is the order in which a merge of sorted paths
leaves its frames: inner frames before the frames around them, and otherwise as
the paths come.
-/

namespace FlameProfile
namespace Path

/-! ## Stems -/

/-- The beginning of a path is not above it. -/
theorem not_lt_of_isPrefix
    {stem path : List String}
    (starts : stem <+: path) :
    ¬ path < stem := by
  induction stem generalizing path with
  | nil => exact List.not_lt_nil path
  | cons label rest inductionHypothesis =>
      obtain ⟨tail, rfl⟩ := starts
      intro below
      rw [List.cons_append, List.cons_lt_cons_iff] at below
      rcases below with less | ⟨_, restBelow⟩
      · exact lt_irrefl label less
      · exact inductionHypothesis (List.prefix_append rest tail) restBelow

/-- A proper beginning of a path is below it. -/
theorem lt_of_prefix_of_ne
    {stem path : List String}
    (starts : stem <+: path)
    (different : stem ≠ path) :
    stem < path := by
  rcases lt_trichotomy stem path with below | equal | above
  · exact below
  · exact absurd equal different
  · exact absurd above (not_lt_of_isPrefix starts)

/-- Paths between two paths with a stem have the stem. -/
theorem prefix_of_between
    {stem first second third : List String}
    (firstStarts : stem <+: first)
    (thirdStarts : stem <+: third)
    (notBelow : ¬ second < first)
    (notAbove : ¬ third < second) :
    stem <+: second := by
  induction stem generalizing first second third with
  | nil => exact List.nil_prefix
  | cons label rest inductionHypothesis =>
      obtain ⟨firstTail, rfl⟩ := firstStarts
      obtain ⟨thirdTail, rfl⟩ := thirdStarts
      rw [List.cons_append] at notBelow notAbove
      cases second with
      | nil => exact absurd (List.nil_lt_cons label (rest ++ firstTail)) notBelow
      | cons other tail =>
          rw [List.cons_lt_cons_iff, not_or, not_and] at notBelow notAbove
          have same : other = label := le_antisymm (not_lt.mp notAbove.1) (not_lt.mp notBelow.1)
          subst same
          rw [List.cons_prefix_cons]
          exact ⟨rfl, inductionHypothesis (List.prefix_append rest firstTail)
            (List.prefix_append rest thirdTail) (notBelow.2 rfl) (notAbove.2 rfl)⟩

/-- Two stems that are not beginnings of each other order all their paths. -/
theorem lt_of_prefix_of_lt
    {first second firstPath secondPath : List String}
    (below : first < second)
    (apart : ¬ first <+: second)
    (firstStarts : first <+: firstPath)
    (secondStarts : second <+: secondPath) :
    firstPath < secondPath := by
  induction first generalizing second firstPath secondPath with
  | nil => exact absurd List.nil_prefix apart
  | cons label rest inductionHypothesis =>
      cases second with
      | nil => exact absurd below (List.not_lt_nil _)
      | cons other otherRest =>
          obtain ⟨firstTail, rfl⟩ := firstStarts
          obtain ⟨secondTail, rfl⟩ := secondStarts
          rw [List.cons_append, List.cons_append, List.cons_lt_cons_iff]
          rw [List.cons_lt_cons_iff] at below
          rcases below with less | ⟨same, restBelow⟩
          · exact Or.inl less
          · refine Or.inr ⟨same, inductionHypothesis restBelow ?_
              (List.prefix_append rest firstTail) (List.prefix_append otherRest secondTail)⟩
            intro starts
            exact apart (List.cons_prefix_cons.mpr ⟨same, starts⟩)

/-! ## The order of closing -/

/-- A frame is left before another one: it stands inside of it, or its paths
come before all paths of the other. -/
def ClosesBefore (first second : List String) : Prop :=
  (second <+: first ∧ second ≠ first) ∨ (first < second ∧ ¬ first <+: second)

theorem not_closesBefore_self (path : List String) :
    ¬ ClosesBefore path path := by
  rintro (⟨_, different⟩ | ⟨below, _⟩)
  · exact different rfl
  · exact lt_irrefl path below

/-- Of two frames at the same depth, the lower path is left first. -/
theorem ClosesBefore.lt_of_length_eq
    {first second : List String}
    (closes : ClosesBefore first second)
    (sameLength : first.length = second.length) :
    first < second := by
  rcases closes with ⟨starts, different⟩ | ⟨below, _⟩
  · exact absurd (starts.eq_of_length sameLength.symm) different
  · exact below

/-- A stem whose paths are over is left before every beginning of a path that
is not below them. -/
theorem closesBefore_of_not_isPrefix
    {closed opened closedPath path : List String}
    (closedStarts : closed <+: closedPath)
    (openedStarts : opened <+: path)
    (finished : ¬ closed <+: path)
    (sorted : ¬ path < closedPath) :
    ClosesBefore closed opened := by
  have apart : ¬ closed <+: opened := fun starts => finished (starts.trans openedStarts)
  by_cases inside : opened <+: closed
  · refine Or.inl ⟨inside, ?_⟩
    rintro rfl
    exact finished openedStarts
  · refine Or.inr ⟨?_, apart⟩
    rcases lt_trichotomy closed opened with below | equal | above
    · exact below
    · exact absurd (equal ▸ List.prefix_rfl) apart
    · exact absurd (lt_of_prefix_of_lt above inside openedStarts closedStarts) sorted

/-! ## Common beginnings -/

theorem commonLength_le_left (first second : List String) :
    Merge.commonLength first second ≤ first.length := by
  induction first generalizing second with
  | nil => simp [Merge.commonLength]
  | cons label rest inductionHypothesis =>
      cases second with
      | nil => simp [Merge.commonLength]
      | cons other otherRest =>
          rw [Merge.commonLength]
          split
          · exact Nat.succ_le_succ (inductionHypothesis otherRest)
          · exact Nat.zero_le _

/-- Two paths have a beginning in common exactly up to their common length. -/
theorem take_prefix_iff
    {first second : List String}
    {length : Nat}
    (bound : length ≤ first.length) :
    first.take length <+: second ↔ length ≤ Merge.commonLength first second := by
  induction first generalizing second length with
  | nil => simp_all
  | cons label rest inductionHypothesis =>
      cases length with
      | zero => simp
      | succ length =>
          cases second with
          | nil => simp [Merge.commonLength]
          | cons other otherRest =>
              have restBound : length ≤ rest.length := Nat.le_of_succ_le_succ bound
              rw [List.take_succ_cons, List.cons_prefix_cons, inductionHypothesis restBound,
                Merge.commonLength]
              by_cases same : label = other
              · simp [same]
              · simp [same]

theorem commonLength_le_right (first second : List String) :
    Merge.commonLength first second ≤ second.length := by
  have starts : first.take (Merge.commonLength first second) <+: second :=
    (take_prefix_iff (commonLength_le_left first second)).mpr le_rfl
  have bound := starts.length_le
  rwa [List.length_take, min_eq_left (commonLength_le_left first second)] at bound

/-- Up to the common length, two paths are the same. -/
theorem take_eq_take_of_le_commonLength
    {first second : List String}
    {length : Nat}
    (bound : length ≤ Merge.commonLength first second) :
    first.take length = second.take length := by
  have leftBound := bound.trans (commonLength_le_left first second)
  have starts := (take_prefix_iff leftBound).mpr bound
  rw [List.prefix_iff_eq_take, List.length_take, min_eq_left leftBound] at starts
  exact starts

end Path
end FlameProfile
