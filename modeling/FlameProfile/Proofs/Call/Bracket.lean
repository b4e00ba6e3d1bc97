import Mathlib
import FlameProfile.Call.Reconstruction

/-!
# Brackets in the log of a thread

Without a machine, the calls of a thread are brackets in its log. Exits are taken
in the order of the log, and each is matched with the latest earlier entry that
is still unmatched, whatever functions the two name; an exit without such an
entry stays alone. The entries around a call are those that are open when it
starts, and the call is directly inside of the innermost of them.
-/

namespace FlameProfile

/-- An event with its position in a log. -/
abbrev PlacedEvent (Time : Type) := Event Time × Nat

/-- An entry and the exit that is matched with it. -/
structure Bracket (Time : Type) where
  entry : PlacedEvent Time
  exit : PlacedEvent Time

namespace Bracket

variable {Time : Type}

/-! ## Matching -/

/-- The entry events of a log, in its order. -/
def entries (own : List (Event Time)) : List (PlacedEvent Time) :=
  own.zipIdx.filter fun placed => placed.1.kind.isEntry

/-- The exit events of a log, in its order. -/
def exits (own : List (Event Time)) : List (PlacedEvent Time) :=
  own.zipIdx.filter fun placed => !placed.1.kind.isEntry

/-- The entries before a position that are in none of the brackets. -/
def unmatched
    (own : List (Event Time))
    (brackets : List (Bracket Time))
    (position : Nat) : List (PlacedEvent Time) :=
  (entries own).filter fun entry =>
    entry.2 < position && brackets.all fun bracket => bracket.entry.2 ≠ entry.2

/-- Match an exit with the latest entry before it that is still unmatched, if
there is one. -/
def matchExit
    (own : List (Event Time))
    (brackets : List (Bracket Time))
    (exit : PlacedEvent Time) : List (Bracket Time) :=
  match (unmatched own brackets exit.2).getLast? with
  | some entry => brackets ++ [⟨entry, exit⟩]
  | none => brackets

/-- The brackets of a log, in the order in which they close. -/
def ofLog (own : List (Event Time)) : List (Bracket Time) :=
  (exits own).foldl (matchExit own) []

/-- The entries that are open at a position, outermost first: those before it
that no exit before it is matched with. -/
def openAt
    (own : List (Event Time))
    (position : Nat) : List (PlacedEvent Time) :=
  unmatched own ((ofLog own).filter fun bracket => bracket.exit.2 < position) position

/-! ## Calls -/

section Calls

variable [Arithmetic Time]

/-- Time from the entry to the exit. -/
def elapsed (bracket : Bracket Time) : Time :=
  bracket.exit.1.time - bracket.entry.1.time

/-- One bracket is around another one. -/
def encloses (outer inner : Bracket Time) : Bool :=
  outer.entry.2 < inner.entry.2 && inner.exit.2 < outer.exit.2

/-- The brackets directly inside of a bracket, in the order in which they close:
those inside of it with no bracket in between. -/
def inside
    (own : List (Event Time))
    (outer : Bracket Time) : List (Bracket Time) :=
  (ofLog own).filter fun inner =>
    outer.encloses inner &&
      (ofLog own).all fun between => !(outer.encloses between && between.encloses inner)

/-- The sum of times of brackets. -/
def sum (brackets : List (Bracket Time)) : Time :=
  brackets.foldl (fun total bracket => total + bracket.elapsed) 0

/-- The record of a call that is a bracket of the log. -/
def record
    (own : List (Event Time))
    (bracket : Bracket Time) : CallRecord Time where
  start := bracket.entry.1.time
  finish := some bracket.exit.1.time
  trace := (openAt own bracket.entry.2).map fun entry => entry.1.key
  nested := sum (inside own bracket)
  exclusive :=
    Arithmetic.clamp CallRecord.leastTime
      (Arithmetic.larger bracket.elapsed CallRecord.leastTime)
      (bracket.elapsed - sum (inside own bracket))
  inclusive := Arithmetic.larger bracket.elapsed CallRecord.leastTime
  exceptions := (Reconstruction.raised bracket.exit.1).toList

/-- The bracket of an entry, if it is matched. -/
def find?
    (own : List (Event Time))
    (position : Nat) : Option (Bracket Time) :=
  (ofLog own).find? fun bracket => bracket.entry.2 = position

/-- The records of the matched entries of a key, in the order of the log. -/
def callsOf
    (own : List (Event Time))
    (key : EventKey) : List (CallRecord Time) :=
  ((entries own).filter fun entry => entry.1.key = key).filterMap fun entry =>
    (find? own entry.2).map (record own)

end Calls

/-! ## One more event -/

section Append

variable {own : List (Event Time)} {event : Event Time} {brackets : List (Bracket Time)}
  {position : Nat}

/-- Entries have positions in the log. -/
theorem lt_length_of_mem_entries
    {entry : PlacedEvent Time}
    (member : entry ∈ entries own) :
    entry.2 < own.length := by
  simpa using List.snd_lt_of_mem_zipIdx (List.mem_of_mem_filter member)

/-- Exits have positions in the log. -/
theorem lt_length_of_mem_exits
    {exit : PlacedEvent Time}
    (member : exit ∈ exits own) :
    exit.2 < own.length := by
  simpa using List.snd_lt_of_mem_zipIdx (List.mem_of_mem_filter member)

/-- A new entry comes behind the others. -/
theorem entries_append_entry
    (isEntry : event.kind.isEntry = true) :
    entries (own ++ [event]) = entries own ++ [(event, own.length)] := by
  rw [entries, List.zipIdx_append, List.filter_append, entries]
  simp [isEntry]

/-- A new exit adds no entry. -/
theorem entries_append_exit
    (isExit : ¬ event.kind.isEntry = true) :
    entries (own ++ [event]) = entries own := by
  rw [entries, List.zipIdx_append, List.filter_append, entries]
  simp [isExit]

/-- A new entry adds no exit. -/
theorem exits_append_entry
    (isEntry : event.kind.isEntry = true) :
    exits (own ++ [event]) = exits own := by
  rw [exits, List.zipIdx_append, List.filter_append, exits]
  simp [isEntry]

/-- A new exit comes behind the others. -/
theorem exits_append_exit
    (isExit : ¬ event.kind.isEntry = true) :
    exits (own ++ [event]) = exits own ++ [(event, own.length)] := by
  rw [exits, List.zipIdx_append, List.filter_append, exits]
  simp [isExit]

/-- What comes later does not change which entries are unmatched. -/
theorem unmatched_append
    (bound : position ≤ own.length)
    (event : Event Time)
    (brackets : List (Bracket Time)) :
    unmatched (own ++ [event]) brackets position = unmatched own brackets position := by
  rw [unmatched, unmatched]
  by_cases isEntry : event.kind.isEntry = true
  · rw [entries_append_entry isEntry, List.filter_append]
    simp [Nat.not_lt.mpr bound]
  · rw [entries_append_exit isEntry]

/-- The brackets of the events before stay as they are. -/
theorem foldl_matchExit_append
    (own : List (Event Time))
    (event : Event Time) :
    (exits own).foldl (matchExit (own ++ [event])) [] = ofLog own := by
  apply List.foldl_ext
  intro brackets exit member
  rw [matchExit, matchExit, unmatched_append (lt_length_of_mem_exits member).le]

/-- An entry adds no bracket. -/
theorem ofLog_append_entry
    (isEntry : event.kind.isEntry = true) :
    ofLog (own ++ [event]) = ofLog own := by
  rw [ofLog, exits_append_entry isEntry, foldl_matchExit_append]

/-- An exit adds the bracket with the latest unmatched entry. -/
theorem ofLog_append_exit
    (isExit : ¬ event.kind.isEntry = true) :
    ofLog (own ++ [event]) = matchExit own (ofLog own) (event, own.length) := by
  rw [ofLog, exits_append_exit isExit, List.foldl_append, foldl_matchExit_append,
    List.foldl_cons, List.foldl_nil, matchExit, matchExit, unmatched_append le_rfl]

end Append

/-! ## Positions -/

section Positions

variable {own : List (Event Time)}

/-- Entries are listed by rising position. -/
theorem pairwise_entries (own : List (Event Time)) :
    (entries own).Pairwise fun first second => first.2 < second.2 := by
  induction own using List.reverseRecOn with
  | nil => exact List.Pairwise.nil
  | append_singleton front event inductionHypothesis =>
      by_cases isEntry : event.kind.isEntry = true
      · rw [entries_append_entry isEntry]
        refine List.pairwise_append.mpr ⟨inductionHypothesis, List.pairwise_singleton _ _, ?_⟩
        intro entry member last isLast
        rw [List.mem_singleton.mp isLast]
        exact lt_length_of_mem_entries member
      · rwa [entries_append_exit isEntry]

/-- An entry is known by its position. -/
theorem eq_of_position_eq
    {first second : PlacedEvent Time}
    (firstMember : first ∈ entries own)
    (secondMember : second ∈ entries own)
    (same : first.2 = second.2) :
    first = second := by
  have distinct : ((entries own).map Prod.snd).Nodup :=
    List.pairwise_map.mpr ((pairwise_entries own).imp Nat.ne_of_lt)
  exact List.inj_on_of_nodup_map distinct firstMember secondMember same

/-- An entry before a position is unmatched if no bracket begins with it. -/
theorem mem_unmatched
    {brackets : List (Bracket Time)}
    {position : Nat}
    {entry : PlacedEvent Time} :
    entry ∈ unmatched own brackets position ↔
      entry ∈ entries own ∧ entry.2 < position ∧
        ∀ bracket ∈ brackets, bracket.entry.2 ≠ entry.2 := by
  simp [unmatched]

/-- A bracket goes from an entry to a later exit. -/
theorem mem_ofLog
    {bracket : Bracket Time}
    (member : bracket ∈ ofLog own) :
    bracket.entry ∈ entries own ∧ bracket.exit ∈ exits own ∧
      bracket.entry.2 < bracket.exit.2 := by
  induction own using List.reverseRecOn with
  | nil => exact absurd member List.not_mem_nil
  | append_singleton front event inductionHypothesis =>
      by_cases isEntry : event.kind.isEntry = true
      · rw [ofLog_append_entry isEntry] at member
        obtain ⟨entry, exit, less⟩ := inductionHypothesis member
        rw [entries_append_entry isEntry, exits_append_entry isEntry]
        exact ⟨List.mem_append_left _ entry, exit, less⟩
      · rw [entries_append_exit isEntry, exits_append_exit isEntry]
        have older : bracket ∈ ofLog front →
            bracket.entry ∈ entries front ∧
              bracket.exit ∈ exits front ++ [(event, front.length)] ∧
              bracket.entry.2 < bracket.exit.2 := by
          intro old
          obtain ⟨entry, exit, less⟩ := inductionHypothesis old
          exact ⟨entry, List.mem_append_left _ exit, less⟩
        rw [ofLog_append_exit isEntry, matchExit] at member
        split at member
        next entry latest =>
          rcases List.mem_append.mp member with old | isNew
          · exact older old
          · rw [List.mem_singleton.mp isNew]
            have unmatchedEntry := mem_unmatched.mp (List.mem_of_getLast? latest)
            exact ⟨unmatchedEntry.1, by simp, unmatchedEntry.2.1⟩
        next => exact older member

end Positions

/-! ## Open entries -/

section Open

variable {own : List (Event Time)} {event : Event Time}

/-- What is open at a position was entered before it. -/
theorem mem_openAt
    {position : Nat}
    {entry : PlacedEvent Time}
    (member : entry ∈ openAt own position) :
    entry ∈ entries own ∧ entry.2 < position :=
  ⟨(mem_unmatched.mp member).1, (mem_unmatched.mp member).2.1⟩

/-- Each of the open entries was entered before the position. -/
theorem mem_openAt_of_split
    {position : Nat}
    {front back : List (PlacedEvent Time)}
    {entry : PlacedEvent Time}
    (split : openAt own position = front ++ entry :: back) :
    entry ∈ entries own ∧ entry.2 < position := by
  apply mem_openAt
  rw [split]
  exact List.mem_append_right front List.mem_cons_self

/-- At the end of the log, the open entries are the unmatched ones. -/
theorem openAt_length (own : List (Event Time)) :
    openAt own own.length = unmatched own (ofLog own) own.length := by
  have all : ((ofLog own).filter fun bracket => bracket.exit.2 < own.length) = ofLog own := by
    rw [List.filter_eq_self]
    intro bracket member
    exact decide_eq_true (lt_length_of_mem_exits (mem_ofLog member).2.1)
  rw [openAt, all]

/-- What comes later does not change what is open at a position. -/
theorem openAt_append
    {position : Nat}
    (bound : position ≤ own.length)
    (event : Event Time) :
    openAt (own ++ [event]) position = openAt own position := by
  have earlier : ((ofLog (own ++ [event])).filter fun bracket => bracket.exit.2 < position) =
      (ofLog own).filter fun bracket => bracket.exit.2 < position := by
    by_cases isEntry : event.kind.isEntry = true
    · rw [ofLog_append_entry isEntry]
    · rw [ofLog_append_exit isEntry, matchExit]
      split
      · rw [List.filter_append, List.filter_cons_of_neg (by simpa using bound), List.filter_nil,
          List.append_nil]
      · rfl
  rw [openAt, openAt, earlier, unmatched_append bound]

/-- An entry is open once it has come. -/
theorem openAt_append_entry
    (isEntry : event.kind.isEntry = true) :
    openAt (own ++ [event]) (own ++ [event]).length =
      openAt own own.length ++ [(event, own.length)] := by
  rw [openAt_length, openAt_length, ofLog_append_entry isEntry, unmatched, unmatched,
    entries_append_entry isEntry, List.filter_append]
  have fresh : ((ofLog own).all fun bracket => bracket.entry.2 ≠ own.length) = true := by
    rw [List.all_eq_true]
    intro bracket member
    exact decide_eq_true (lt_length_of_mem_entries (mem_ofLog member).1).ne
  congr 1
  · apply List.filter_congr
    intro entry member
    have inside := lt_length_of_mem_entries member
    simp [inside, Nat.lt_succ_of_lt inside]
  · simp only [List.filter_cons, fresh]
    simp

/-- An exit closes the innermost open entry. -/
theorem openAt_append_exit
    (isExit : ¬ event.kind.isEntry = true) :
    openAt (own ++ [event]) (own ++ [event]).length = (openAt own own.length).dropLast := by
  have longer : ∀ brackets : List (Bracket Time),
      unmatched (own ++ [event]) brackets (own ++ [event]).length =
        unmatched own brackets own.length := by
    intro brackets
    rw [unmatched, unmatched, entries_append_exit isExit]
    apply List.filter_congr
    intro entry member
    have inside := lt_length_of_mem_entries member
    simp [inside, Nat.lt_succ_of_lt inside]
  rw [openAt_length, openAt_length, longer, ofLog_append_exit isExit, matchExit]
  split
  next entry latest =>
    obtain ⟨front, split⟩ := List.getLast?_eq_some_iff.mp latest
    have removes : unmatched own (ofLog own ++ [⟨entry, (event, own.length)⟩]) own.length =
        (unmatched own (ofLog own) own.length).filter fun other => entry.2 ≠ other.2 := by
      rw [unmatched, unmatched, List.filter_filter]
      apply List.filter_congr
      intro other _
      simp only [List.all_append, List.all_cons, List.all_nil, Bool.and_true]
      rw [Bool.and_comm (decide (entry.2 ≠ other.2)), Bool.and_assoc]
    have rising : (front ++ [entry]).Pairwise fun first second => first.2 < second.2 := by
      rw [← split]
      exact (pairwise_entries own).filter _
    rw [removes, split, List.dropLast_concat, List.filter_append,
      List.filter_cons_of_neg (by simp), List.filter_nil, List.append_nil, List.filter_eq_self]
    intro other member
    have less := (List.pairwise_append.mp rising).2.2 other member entry List.mem_cons_self
    exact decide_eq_true less.ne'
  next noEntry =>
    rw [List.getLast?_eq_none_iff.mp noEntry]
    rfl

/-- The entries around an open entry were open when it came, and no others. -/
theorem openAt_position
    {front back : List (PlacedEvent Time)}
    {entry : PlacedEvent Time}
    (split : openAt own own.length = front ++ entry :: back) :
    openAt own entry.2 = front := by
  induction own using List.reverseRecOn generalizing back with
  | nil => exact absurd split (by simp [openAt, unmatched, entries])
  | append_singleton earlier event inductionHypothesis =>
      by_cases isEntry : event.kind.isEntry = true
      · rw [openAt_append_entry isEntry] at split
        rcases List.eq_nil_or_concat back with rfl | ⟨rest, last, rfl⟩
        · obtain ⟨fronts, lasts⟩ := List.append_inj' split rfl
          rw [← (List.singleton_inj.mp lasts), openAt_append le_rfl, fronts]
        · rw [List.concat_eq_append, ← List.cons_append, ← List.append_assoc] at split
          obtain ⟨older, _⟩ := List.append_inj' split rfl
          have inside := (mem_openAt_of_split older).2
          rw [openAt_append inside.le]
          exact inductionHypothesis older
      · rw [openAt_append_exit isEntry] at split
        obtain ⟨last, older⟩ : ∃ last, openAt earlier earlier.length =
            front ++ entry :: back ++ [last] := by
          have nonempty : openAt earlier earlier.length ≠ [] := by
            intro empty
            rw [empty] at split
            exact absurd split (by simp)
          refine ⟨(openAt earlier earlier.length).getLast nonempty, ?_⟩
          rw [← split, List.dropLast_append_getLast]
        rw [List.append_assoc, List.cons_append] at older
        have inside := (mem_openAt_of_split older).2
        rw [openAt_append inside.le]
        exact inductionHypothesis older

end Open

end Bracket
end FlameProfile
