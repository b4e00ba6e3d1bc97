import Mathlib
import FlameProfile.HotPath

/-!
# Runs of a trace

A trace is shortened by writing each of its maximal runs once, with its length. Runs are
taken from the left, each as far as it goes. They are the one way to write the trace as
labels with counts in which neighbouring labels differ; so what is written stands for the
trace it was made from, label by label.

A run is counted in a word of 32 bits with a sign. `simplify_eq_map_runs` connects what is
written with the runs, whatever their lengths; `writeRun_eq_spell_iff` says that the text of
a run is right exactly if its length fits into the word. Counting that stops where the word
is full, and does not wrap around, is `simplifyChecked`.
-/

namespace FlameProfile
namespace Trace

/-! ## Runs -/

/-- The maximal runs of equal labels, each with its length. -/
def runs : List String -> List (String × Nat)
  | [] => []
  | label :: rest =>
      match runs rest with
      | [] => [(label, 1)]
      | (next, count) :: others =>
          if label = next then
            (next, count + 1) :: others
          else
            (label, 1) :: (next, count) :: others

/-- The labels of runs, each as often as its run is long. -/
def expand (pairs : List (String × Nat)) : List String :=
  pairs.flatMap fun run => List.replicate run.2 run.1

@[simp] theorem expand_cons
    (run : String × Nat)
    (others : List (String × Nat)) :
    expand (run :: others) = List.replicate run.2 run.1 ++ expand others :=
  List.flatMap_cons

/-- Runs lose no label and invent none. -/
@[simp] theorem expand_runs (labels : List String) :
    expand (runs labels) = labels := by
  induction labels with
  | nil => rfl
  | cons label rest inductionHypothesis =>
      rw [runs]
      split
      next none =>
        rw [none] at inductionHypothesis
        simp [← inductionHypothesis, expand]
      next next count others some =>
        rw [some, expand_cons] at inductionHypothesis
        split
        next same => simp [same, List.replicate_succ, inductionHypothesis]
        next => simp [inductionHypothesis]

/-- A run is taken as far as its label is repeated, and the next one begins behind it. -/
theorem runs_cons
    (label : String)
    (rest : List String) :
    runs (label :: rest) =
      (label, (rest.takeWhile (· = label)).length + 1) :: runs (rest.dropWhile (· = label)) := by
  induction rest generalizing label with
  | nil => rfl
  | cons next tail inductionHypothesis =>
      rw [runs, inductionHypothesis next]
      by_cases same : label = next
      · subst same
        simp
      · have apart : next ≠ label := Ne.symm same
        simp [same, apart, inductionHypothesis next]

/-! ## Codes by run lengths -/

/-- Labels with counts are the code of a trace by the lengths of its runs: no count is
zero, neighbouring labels differ, and each label repeated as often as it counts gives the
trace. -/
structure IsRunLength
    (labels : List String)
    (pairs : List (String × Nat)) : Prop where
  positive : ∀ run ∈ pairs, 1 ≤ run.2
  maximal : pairs.IsChain fun first second => first.1 ≠ second.1
  expands : expand pairs = labels

/-- The runs of a trace are a code of it. -/
theorem isRunLength_runs (labels : List String) : IsRunLength labels (runs labels) := by
  suffices code : (∀ run ∈ runs labels, 1 ≤ run.2) ∧
      (runs labels).IsChain fun first second => first.1 ≠ second.1 by
    exact ⟨code.1, code.2, expand_runs labels⟩
  induction labels with
  | nil => exact ⟨by simp [runs], List.IsChain.nil⟩
  | cons label rest inductionHypothesis =>
      rw [runs]
      split
      next => exact ⟨by simp, List.IsChain.singleton _⟩
      next next count others isRuns =>
        rw [isRuns] at inductionHypothesis
        obtain ⟨positive, maximal⟩ := inductionHypothesis
        obtain ⟨_, othersPositive⟩ := List.forall_mem_cons.mp positive
        split
        next =>
          -- The first run becomes longer and keeps its label.
          refine ⟨List.forall_mem_cons.mpr ⟨Nat.le_add_left 1 count, othersPositive⟩, ?_⟩
          rw [List.isChain_cons] at maximal ⊢
          exact maximal
        next different =>
          exact ⟨List.forall_mem_cons.mpr ⟨le_rfl, positive⟩,
            List.isChain_cons_cons.mpr ⟨different, maximal⟩⟩

/-- What begins with another label has no run of this one in front. -/
theorem takeWhile_expand
    {label : String}
    {others : List (String × Nat)}
    (positive : ∀ run ∈ others, 1 ≤ run.2)
    (apart : ∀ run ∈ others.head?, label ≠ run.1) :
    (expand others).takeWhile (· = label) = [] ∧
      (expand others).dropWhile (· = label) = expand others := by
  cases others with
  | nil => exact ⟨rfl, rfl⟩
  | cons run later =>
      obtain ⟨before, isCount⟩ := Nat.exists_eq_add_of_le' (positive run List.mem_cons_self)
      have other : ¬ decide (run.1 = label) = true := by
        simpa using (apart run rfl).symm
      rw [expand_cons, isCount, List.replicate_succ, List.cons_append]
      exact ⟨List.takeWhile_cons_of_neg other, List.dropWhile_cons_of_neg other⟩

/-- From a code the runs are read back. -/
theorem runs_expand
    {pairs : List (String × Nat)}
    (positive : ∀ run ∈ pairs, 1 ≤ run.2)
    (maximal : pairs.IsChain fun first second => first.1 ≠ second.1) :
    runs (expand pairs) = pairs := by
  induction pairs with
  | nil => rfl
  | cons run others inductionHypothesis =>
      obtain ⟨isPositive, othersPositive⟩ := List.forall_mem_cons.mp positive
      obtain ⟨apart, othersMaximal⟩ := List.isChain_cons.mp maximal
      obtain ⟨before, isCount⟩ := Nat.exists_eq_add_of_le' isPositive
      obtain ⟨noneTaken, noneDropped⟩ := takeWhile_expand othersPositive apart
      have repeated : ∀ label ∈ List.replicate before run.1, decide (label = run.1) = true := by
        simp
      rw [expand_cons, isCount, List.replicate_succ, List.cons_append, runs_cons,
        List.takeWhile_append_of_pos repeated, List.dropWhile_append_of_pos repeated,
        noneTaken, noneDropped, inductionHypothesis othersPositive othersMaximal,
        List.append_nil, List.length_replicate, ← isCount]

/-- A trace has one code by run lengths. -/
theorem isRunLength_iff
    {labels : List String}
    {pairs : List (String × Nat)} :
    IsRunLength labels pairs ↔ pairs = runs labels := by
  constructor
  · rintro ⟨positive, maximal, rfl⟩
    exact (runs_expand positive maximal).symm
  · rintro rfl
    exact isRunLength_runs labels

theorem runs_replicate
    (label : String)
    (count : Nat) :
    runs (List.replicate (count + 1) label) = [(label, count + 1)] := by
  have code : runs (expand [(label, count + 1)]) = [(label, count + 1)] :=
    runs_expand (by simp) (List.IsChain.singleton _)
  rwa [expand_cons, expand, List.flatMap_nil, List.append_nil] at code

/-- No run is longer than its trace. -/
theorem count_le_length
    {labels : List String}
    {run : String × Nat}
    (member : run ∈ runs labels) :
    run.2 ≤ labels.length := by
  have inside : List.replicate run.2 run.1 <:+: expand (runs labels) :=
    List.infix_of_mem_flatten (List.mem_map_of_mem member)
  simpa using inside.length_le

/-! ## Counted runs -/

/-- A run in words: its label if it stands alone, and otherwise the label behind dots and
with the length of the run. -/
def spell (run : String × Nat) : String :=
  if run.2 = 1 then run.1 else "... " ++ run.1 ++ " (x" ++ toString run.2 ++ ")"

/-- One label more is counted, also where the word that counts is full. -/
theorem ofNat_add_one (count : Nat) :
    Int32.ofNat count + 1 = Int32.ofNat (count + 1) :=
  (Int32.ofNat_add count 1).symm

/-- The run that is under way goes on as far as its label is repeated. -/
theorem simplifyFrom_eq
    (label : String)
    (count : Nat)
    (rest : List String) :
    simplifyFrom label (Int32.ofNat (count + 1)) rest =
      writeRun label (Int32.ofNat (count + 1 + (rest.takeWhile (· = label)).length)) ::
        (runs (rest.dropWhile (· = label))).map fun run => writeRun run.1 (Int32.ofNat run.2) := by
  induction rest generalizing label count with
  | nil => rfl
  | cons next tail inductionHypothesis =>
      rw [simplifyFrom]
      by_cases same : next = label
      · rw [if_pos same, ofNat_add_one, inductionHypothesis]
        simp only [same, decide_true, List.takeWhile_cons, List.dropWhile_cons, if_true,
          List.length_cons]
        rw [Nat.add_assoc (count + 1), Nat.add_comm 1]
      · have fresh : simplifyFrom next 1 tail = _ := inductionHypothesis next 0
        rw [if_neg same, fresh, List.takeWhile_cons_of_neg (by simpa using same),
          List.dropWhile_cons_of_neg (by simpa using same), runs_cons, List.map_cons,
          Nat.zero_add, Nat.add_comm 1]
        rfl

/-- What is written of a trace are its runs, each with its length as the word counts it. -/
theorem simplify_eq_map_runs (labels : List String) :
    simplify labels = (runs labels).map fun run => writeRun run.1 (Int32.ofNat run.2) := by
  cases labels with
  | nil => rfl
  | cons label rest =>
      have taken : simplifyFrom label 1 rest = _ := simplifyFrom_eq label 0 rest
      rw [simplify, taken, runs_cons, List.map_cons, Nat.zero_add, Nat.add_comm 1]

/-- A count that is shown is shown behind the label. -/
theorem writeRun_of_one_lt
    {count : Int32}
    (several : 1 < count)
    (label : String) :
    writeRun label count = "... " ++ label ++ " (x" ++ toString count.toInt ++ ")" := by
  rw [writeRun, if_pos several]
  rfl

theorem spell_of_one_lt
    {count : Nat}
    (several : 1 < count)
    (label : String) :
    spell (label, count) = "... " ++ label ++ " (x" ++ toString count ++ ")" :=
  if_neg several.ne'

/-- A label with its dots and its count is longer than the label by itself. -/
theorem ne_spell_of_one_lt
    {count : Nat}
    (several : 1 < count)
    (label : String) :
    label ≠ spell (label, count) := by
  intro same
  have lengths := congrArg String.length same
  rw [spell_of_one_lt several] at lengths
  simp only [String.length_append] at lengths
  have dots : "... ".length = 4 := rfl
  omega

/-- The text of a run has its length if the length fits into the word. -/
theorem writeRun_eq_spell
    {count : Nat}
    (positive : 1 ≤ count)
    (fits : count < 2 ^ 31)
    (label : String) :
    writeRun label (Int32.ofNat count) = spell (label, count) := by
  have exactly : (Int32.ofNat count).toInt = count := Int32.toInt_ofNat_of_lt fits
  have several : 1 < Int32.ofNat count ↔ 1 < (Int32.ofNat count).toInt := Int32.lt_iff_toInt_lt
  rw [exactly, Nat.one_lt_cast] at several
  by_cases many : 1 < count
  · rw [writeRun_of_one_lt (several.mpr many), spell_of_one_lt many, exactly]
    rfl
  · rw [writeRun, if_neg (mt several.mp many), spell, if_pos]
    exact le_antisymm (not_lt.mp many) positive

/-- The text of a run that does not fit into the word has another length or none. -/
theorem writeRun_ne_spell
    {count : Nat}
    (long : 2 ^ 31 ≤ count)
    (label : String) :
    writeRun label (Int32.ofNat count) ≠ spell (label, count) := by
  intro same
  have many : 1 < count := by omega
  by_cases shown : 1 < Int32.ofNat count
  · -- The number that is shown fits into the word, so it is not the length.
    have above : 1 < (Int32.ofNat count).toInt := Int32.lt_iff_toInt_lt.mp shown
    have bounded := (Int32.ofNat count).toInt_lt
    obtain ⟨number, isNumber⟩ := Int.eq_ofNat_of_zero_le (zero_le_one.trans above.le)
    rw [writeRun_of_one_lt shown, spell_of_one_lt many, isNumber] at same
    simp only [String.append_left_inj, String.append_right_inj] at same
    have equal : number = count := Nat.repr_inj.mp same
    omega
  · rw [writeRun, if_neg shown] at same
    exact ne_spell_of_one_lt many label same

/-- The text of a run has its length exactly if the length fits into the word. -/
theorem writeRun_eq_spell_iff
    {count : Nat}
    (positive : 1 ≤ count)
    (label : String) :
    writeRun label (Int32.ofNat count) = spell (label, count) ↔ count < 2 ^ 31 := by
  constructor
  · intro same
    by_contra long
    exact writeRun_ne_spell (not_lt.mp long) label same
  · exact fun fits => writeRun_eq_spell positive fits label

/-- A trace is written with the lengths of its runs exactly if they all fit. -/
theorem simplify_eq_map_spell_iff (labels : List String) :
    simplify labels = (runs labels).map spell ↔ ∀ run ∈ runs labels, run.2 < 2 ^ 31 := by
  rw [simplify_eq_map_runs, List.map_inj_left]
  exact forall₂_congr fun run member =>
    writeRun_eq_spell_iff ((isRunLength_runs labels).positive run member) run.1

/-! ## Checked counts -/

/-- Write the run that is under way, and what comes behind it, unless the word that counts
is full before the run ends. -/
def simplifyCheckedFrom
    (label : String)
    (count : Int32) : List String -> Option (List String)
  | [] => some [writeRun label count]
  | next :: rest =>
      if next = label then
        if count = Int32.maxValue then none else simplifyCheckedFrom label (count + 1) rest
      else
        (simplifyCheckedFrom next 1 rest).map (writeRun label count :: ·)

/-- Shorten a trace with counts that stop where they would wrap around. -/
def simplifyChecked : List String -> Option (List String)
  | [] => some []
  | label :: rest => simplifyCheckedFrom label 1 rest

/-- A word is full at the greatest number that it counts. -/
theorem ofNat_eq_maxValue_iff
    {count : Nat}
    (fits : count < 2 ^ 31) :
    Int32.ofNat count = Int32.maxValue ↔ count = 2 ^ 31 - 1 := by
  have greatest : Int32.maxValue.toInt = 2 ^ 31 - 1 := rfl
  rw [← Int32.toInt_inj, Int32.toInt_ofNat_of_lt fits, greatest]
  omega

/-- A count that fits goes on to the end of its run and of the trace if the run and those
behind it fit as well, and stops otherwise. -/
theorem simplifyCheckedFrom_eq
    (count : Nat)
    (fits : count + 1 < 2 ^ 31)
    (label : String)
    (rest : List String) :
    simplifyCheckedFrom label (Int32.ofNat (count + 1)) rest =
      if count + 1 + (rest.takeWhile (· = label)).length < 2 ^ 31 ∧
          ∀ run ∈ runs (rest.dropWhile (· = label)), run.2 < 2 ^ 31 then
        some (simplifyFrom label (Int32.ofNat (count + 1)) rest)
      else
        none := by
  induction rest generalizing label count with
  | nil => exact (if_pos ⟨fits, List.forall_mem_nil _⟩).symm
  | cons next tail inductionHypothesis =>
      rw [simplifyCheckedFrom, simplifyFrom]
      by_cases same : next = label
      · simp only [same, if_true, decide_true, List.takeWhile_cons, List.dropWhile_cons,
          List.length_cons]
        by_cases full : Int32.ofNat (count + 1) = Int32.maxValue
        · rw [if_pos full, if_neg]
          have isFull := (ofNat_eq_maxValue_iff fits).mp full
          omega
        · have isNotFull := mt (ofNat_eq_maxValue_iff fits).mpr full
          rw [if_neg full, ofNat_add_one, inductionHypothesis (count + 1) (by omega),
            Nat.add_assoc (count + 1), Nat.add_comm 1]
      · have fresh : simplifyCheckedFrom next 1 tail = _ :=
          inductionHypothesis 0 (by decide) next
        rw [if_neg same, if_neg same, fresh, List.takeWhile_cons_of_neg (by simpa using same),
          List.dropWhile_cons_of_neg (by simpa using same), runs_cons, Nat.zero_add]
        simp only [List.forall_mem_cons, List.length_nil, Nat.add_zero, fits, true_and,
          Nat.add_comm 1]
        split <;> rfl

/-- Checked counts shorten a trace as the others do if all its runs fit, and stop otherwise. -/
theorem simplifyChecked_eq (labels : List String) :
    simplifyChecked labels =
      if ∀ run ∈ runs labels, run.2 < 2 ^ 31 then some (simplify labels) else none := by
  cases labels with
  | nil => rfl
  | cons label rest =>
      have taken : simplifyCheckedFrom label 1 rest = _ :=
        simplifyCheckedFrom_eq 0 (by decide) label rest
      rw [simplifyChecked, taken, runs_cons, Nat.zero_add]
      simp only [List.forall_mem_cons, Nat.add_comm 1]
      rfl

/-! ## Shortened traces -/

/-- Shortening a trace writes its one code by run lengths, the label of a run by itself if it
stands alone, and otherwise behind dots and with its length, exactly if no label is repeated
more often than the word counts; a trace that is not longer than that has no such run. Of a
longer run the word shows what is left of its length. A count that does not wrap around but
stops gives the right texts or none. -/
theorem simplify_writes_runLength (labels : List String) :
    ∃ pairs, (∀ others, IsRunLength labels others ↔ others = pairs) ∧
      (simplify labels = pairs.map spell ↔ ∀ run ∈ pairs, run.2 < 2 ^ 31) ∧
      (labels.length < 2 ^ 31 → simplify labels = pairs.map spell) ∧
      simplify labels = pairs.map (fun run => writeRun run.1 (Int32.ofNat run.2)) ∧
      simplifyChecked labels =
        if ∀ run ∈ pairs, run.2 < 2 ^ 31 then some (pairs.map spell) else none := by
  have right := simplify_eq_map_spell_iff labels
  refine ⟨runs labels, fun _ => isRunLength_iff, right, fun short => ?_,
    simplify_eq_map_runs labels, ?_⟩
  · exact right.mpr fun run member => (count_le_length member).trans_lt short
  · rw [simplifyChecked_eq]
    split
    next fit => rw [right.mpr fit]
    next => rfl

example : simplify ["main", "fib", "fib", "fib", "main"] = ["main", "... fib (x3)", "main"] := by
  decide

/-- A trace of one label is written as one run. -/
theorem simplify_replicate
    (label : String)
    (count : Nat) :
    simplify (List.replicate (count + 1) label) =
      [writeRun label (Int32.ofNat (count + 1))] := by
  rw [simplify_eq_map_runs, runs_replicate]
  rfl

/-- A run of as many labels as the word has numbers above zero, and one more, is written as if
it were a label by itself. A run that is longer by all the numbers of the word is written with
the same count, and so traces are not always written with the lengths of their runs. -/
theorem exists_simplify_ne :
    simplify (List.replicate (2147483647 + 1) "f") = ["f"] ∧
    simplify (List.replicate (4294967297 + 1) "f") = ["... f (x2)"] ∧
    simplifyChecked (List.replicate (2147483647 + 1) "f") = none ∧
    ¬ ∀ labels, ∃ pairs, (∀ others, IsRunLength labels others ↔ others = pairs) ∧
      simplify labels = pairs.map spell := by
  refine ⟨?_, ?_, ?_, fun right => ?_⟩
  · rw [simplify_replicate]
    decide +kernel
  · rw [simplify_replicate]
    decide +kernel
  · rw [simplifyChecked_eq, runs_replicate]
    simp
  · obtain ⟨pairs, unique, written⟩ := right (List.replicate (2147483647 + 1) "f")
    obtain rfl := (unique _).mp (isRunLength_runs _)
    have fits := (simplify_eq_map_spell_iff _).mp written
    rw [runs_replicate] at fits
    exact absurd (fits _ (List.mem_singleton_self _)) (by decide)

end Trace
end FlameProfile
