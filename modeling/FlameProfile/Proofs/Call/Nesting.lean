import Mathlib
import FlameProfile.Proofs.Call.Bracket

/-!
# Brackets are well nested

What starts inside of a bracket ends inside of it, since an exit closes the
innermost open entry. So a bracket is directly inside of another one exactly if
the entry of the other is the innermost that is open when it starts. The first
reading needs the whole log, the second only what comes before the entry.
-/

namespace FlameProfile
namespace Bracket

variable {Time : Type} {own : List (Event Time)} {outer inner bracket : Bracket Time}

/-! ## Entries and exits are used once -/

/-- An entry does not stand where an exit stands. -/
theorem entry_ne_exit
    {entry exit : PlacedEvent Time}
    (entryMember : entry ∈ entries own)
    (exitMember : exit ∈ exits own) :
    entry.2 ≠ exit.2 := by
  intro same
  obtain ⟨entryPlaced, isEntry⟩ := List.mem_filter.mp entryMember
  obtain ⟨exitPlaced, isExit⟩ := List.mem_filter.mp exitMember
  rw [List.mem_zipIdx_iff_getElem?] at entryPlaced exitPlaced
  rw [same, exitPlaced, Option.some.injEq] at entryPlaced
  rw [entryPlaced, isEntry] at isExit
  exact absurd isExit (by decide)

/-- No two brackets share their entry. -/
theorem pairwise_ofLog (own : List (Event Time)) :
    (ofLog own).Pairwise fun first second => first.entry.2 ≠ second.entry.2 := by
  induction own using List.reverseRecOn with
  | nil => exact List.Pairwise.nil
  | append_singleton front event inductionHypothesis =>
      by_cases isEntry : event.kind.isEntry = true
      · rwa [ofLog_append_entry isEntry]
      · rw [ofLog_append_exit isEntry, matchExit]
        split
        next entry latest =>
          have isUnmatched := (mem_unmatched.mp (List.mem_of_getLast? latest)).2.2
          refine List.pairwise_append.mpr ⟨inductionHypothesis, List.pairwise_singleton _ _, ?_⟩
          intro first member last isLast
          rw [List.mem_singleton.mp isLast]
          exact isUnmatched first member
        next => exact inductionHypothesis

theorem eq_of_entry_eq
    (outerMember : outer ∈ ofLog own)
    (innerMember : inner ∈ ofLog own)
    (same : outer.entry.2 = inner.entry.2) :
    outer = inner := by
  have distinct : ((ofLog own).map fun bracket => bracket.entry.2).Nodup :=
    List.pairwise_map.mpr (pairwise_ofLog own)
  exact List.inj_on_of_nodup_map distinct outerMember innerMember same

/-! ## Open entries and brackets -/

/-- Open entries are listed by rising position. -/
theorem pairwise_openAt
    (own : List (Event Time))
    (position : Nat) :
    (openAt own position).Pairwise fun first second => first.2 < second.2 :=
  (pairwise_entries own).filter _

/-- The last open entry is the innermost. -/
theorem le_of_getLast?_openAt
    {position : Nat}
    {entry last : PlacedEvent Time}
    (member : entry ∈ openAt own position)
    (isLast : (openAt own position).getLast? = some last) :
    entry.2 ≤ last.2 := by
  obtain ⟨front, split⟩ := List.getLast?_eq_some_iff.mp isLast
  have rising := pairwise_openAt own position
  rw [split] at member rising
  rcases List.mem_append.mp member with inFront | isEntry
  · exact ((List.pairwise_append.mp rising).2.2 entry inFront last List.mem_cons_self).le
  · rw [List.mem_singleton.mp isEntry]

/-- An entry is open at a position behind it if its bracket, if it has one, ends
later. -/
theorem mem_openAt_iff
    {position : Nat}
    {entry : PlacedEvent Time} :
    entry ∈ openAt own position ↔ entry ∈ entries own ∧ entry.2 < position ∧
      ∀ bracket ∈ ofLog own, bracket.entry.2 = entry.2 → position ≤ bracket.exit.2 := by
  rw [openAt, mem_unmatched]
  apply and_congr_right
  intro _
  apply and_congr_right
  intro _
  constructor
  · intro isUnmatched bracket member same
    by_contra early
    refine isUnmatched bracket (List.mem_filter.mpr ⟨member, ?_⟩) same
    exact decide_eq_true (Nat.not_le.mp early)
  · intro later bracket member same
    obtain ⟨inLog, early⟩ := List.mem_filter.mp member
    exact absurd (of_decide_eq_true early) (Nat.not_lt.mpr (later bracket inLog same))

/-- An exit closes the innermost open entry. -/
theorem getLast?_openAt_exit
    (member : bracket ∈ ofLog own) :
    (openAt own bracket.exit.2).getLast? = some bracket.entry := by
  induction own using List.reverseRecOn with
  | nil => exact absurd member List.not_mem_nil
  | append_singleton front event inductionHypothesis =>
      have older : bracket ∈ ofLog front →
          (openAt (front ++ [event]) bracket.exit.2).getLast? = some bracket.entry := by
        intro old
        rw [openAt_append (lt_length_of_mem_exits (mem_ofLog old).2.1).le]
        exact inductionHypothesis old
      by_cases isEntry : event.kind.isEntry = true
      · rw [ofLog_append_entry isEntry] at member
        exact older member
      · rw [ofLog_append_exit isEntry, matchExit] at member
        split at member
        next entry latest =>
          rcases List.mem_append.mp member with old | isNew
          · exact older old
          · rw [List.mem_singleton.mp isNew, openAt_append le_rfl, openAt_length]
            exact latest
        next => exact older member

/-! ## Nesting -/

theorem encloses_iff :
    outer.encloses inner = true ↔
      outer.entry.2 < inner.entry.2 ∧ inner.exit.2 < outer.exit.2 := by
  rw [encloses, Bool.and_eq_true, decide_eq_true_eq, decide_eq_true_eq]

theorem mem_inside :
    inner ∈ inside own outer ↔
      inner ∈ ofLog own ∧ outer.encloses inner = true ∧
        ∀ between ∈ ofLog own, outer.encloses between = true → ¬ between.encloses inner = true := by
  rw [inside, List.mem_filter, Bool.and_eq_true, List.all_eq_true]
  simp only [Bool.not_eq_true', ← Bool.not_eq_true, Bool.and_eq_true, not_and]

/-- A bracket that starts inside of another one ends inside of it. -/
theorem exit_lt_exit
    (outerMember : outer ∈ ofLog own)
    (innerMember : inner ∈ ofLog own)
    (above : outer.entry.2 < inner.entry.2)
    (starts : inner.entry.2 < outer.exit.2) :
    inner.exit.2 < outer.exit.2 := by
  by_contra late
  have isOpen : inner.entry ∈ openAt own outer.exit.2 := by
    refine mem_openAt_iff.mpr ⟨(mem_ofLog innerMember).1, starts, ?_⟩
    intro bracket member same
    rw [eq_of_entry_eq member innerMember same]
    exact Nat.not_lt.mp late
  have last := le_of_getLast?_openAt isOpen (getLast?_openAt_exit outerMember)
  omega

/-- The entry of a bracket is open where another bracket starts exactly if the
one is around the other. -/
theorem entry_mem_openAt_iff
    (outerMember : outer ∈ ofLog own)
    (innerMember : inner ∈ ofLog own) :
    outer.entry ∈ openAt own inner.entry.2 ↔ outer.encloses inner = true := by
  obtain ⟨outerEntry, outerExit, _⟩ := mem_ofLog outerMember
  obtain ⟨innerEntry, _, innerLess⟩ := mem_ofLog innerMember
  rw [encloses_iff, mem_openAt_iff]
  constructor
  · rintro ⟨_, above, later⟩
    have ends := later outer outerMember rfl
    have apart := entry_ne_exit innerEntry outerExit
    exact ⟨above, exit_lt_exit outerMember innerMember above (by omega)⟩
  · rintro ⟨above, ends⟩
    refine ⟨outerEntry, above, ?_⟩
    intro bracket member same
    rw [eq_of_entry_eq member outerMember same]
    omega

/-- An entry that is open above that of a bracket, while the bracket lasts, has a
bracket inside of it. -/
theorem exists_between
    {entry : PlacedEvent Time}
    (outerMember : outer ∈ ofLog own)
    (entryMember : entry ∈ entries own)
    (above : outer.entry.2 < entry.2)
    (starts : entry.2 < outer.exit.2) :
    ∃ between ∈ ofLog own, between.entry = entry ∧ outer.encloses between = true := by
  by_contra none
  push Not at none
  have isOpen : entry ∈ openAt own outer.exit.2 := by
    refine mem_openAt_iff.mpr ⟨entryMember, starts, ?_⟩
    intro between member same
    by_contra early
    rw [Nat.not_le] at early
    have enclosed : outer.encloses between = true := by
      rw [encloses_iff, same]
      exact ⟨above, early⟩
    exact none between member (eq_of_position_eq (mem_ofLog member).1 entryMember same) enclosed
  have last := le_of_getLast?_openAt isOpen (getLast?_openAt_exit outerMember)
  omega

/-- A bracket is directly inside of another one exactly if the entry of the
other is the innermost that is open when it starts. -/
theorem mem_inside_iff
    (outerMember : outer ∈ ofLog own)
    (innerMember : inner ∈ ofLog own) :
    inner ∈ inside own outer ↔
      (openAt own inner.entry.2).getLast?.map Prod.snd = some outer.entry.2 := by
  obtain ⟨outerEntry, outerExit, _⟩ := mem_ofLog outerMember
  obtain ⟨innerEntry, _, innerLess⟩ := mem_ofLog innerMember
  rw [mem_inside, and_iff_right innerMember, ← entry_mem_openAt_iff outerMember innerMember]
  constructor
  · rintro ⟨isOpen, nothingBetween⟩
    obtain ⟨last, isLast⟩ : ∃ last, (openAt own inner.entry.2).getLast? = some last :=
      ⟨_, List.getLast?_eq_some_getLast (List.ne_nil_of_mem isOpen)⟩
    have lastOpen := List.mem_of_getLast? isLast
    obtain ⟨lastEntry, lastLess⟩ := mem_openAt lastOpen
    have above := le_of_getLast?_openAt isOpen isLast
    rw [isLast, Option.map_some, Option.some.injEq]
    by_contra different
    rw [entry_mem_openAt_iff outerMember innerMember, encloses_iff] at isOpen
    obtain ⟨between, betweenMember, rfl, outerAround⟩ :=
      exists_between outerMember lastEntry (by omega) (by omega)
    rw [entry_mem_openAt_iff betweenMember innerMember] at lastOpen
    exact nothingBetween between betweenMember outerAround lastOpen
  · intro innermost
    obtain ⟨last, isLast, same⟩ := Option.map_eq_some_iff.mp innermost
    have lastOpen := List.mem_of_getLast? isLast
    rw [eq_of_position_eq (mem_openAt lastOpen).1 outerEntry same] at isLast lastOpen
    refine ⟨lastOpen, ?_⟩
    intro between betweenMember outerAround innerInside
    rw [← entry_mem_openAt_iff betweenMember innerMember] at innerInside
    have below := le_of_getLast?_openAt innerInside isLast
    have above := (encloses_iff.mp outerAround).1
    omega

end Bracket
end FlameProfile
