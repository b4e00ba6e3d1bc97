import Mathlib
import FlameProfile.Event.Log
import FlameProfile.Proofs.Event.Line
import FlameProfile.Proofs.Result

/-!
# Logs one after the other

A log is read line by line, and where a line stands shows in nothing but the number
under which it is refused. So of two logs with an end of line between them the one is
read and then the other, whose lines are counted on from there. The carriage returns in
front of the end of line do not matter.
-/

namespace FlameProfile

/-! ## Ends of lines -/

/-- Characters of the class at the end of a text are removed, however many there are. -/
theorem Text.trimEnd_append
    (drops : Char -> Bool)
    {more : List Char}
    (dropped : ∀ character ∈ more, drops character = true)
    (text : List Char) :
    trimEnd drops (text ++ more) = trimEnd drops text := by
  rw [trimEnd, trimEnd, List.reverse_append, List.dropWhile_append_of_pos]
  intro character member
  exact dropped character (List.mem_reverse.mp member)

/-- The same line, the given number of lines further down. -/
def MalformedEvent.furtherDown
    (malformed : MalformedEvent)
    (lines : Nat) : MalformedEvent :=
  { malformed with line := malformed.line + lines }

/-- The number of a line goes into the refusal only. -/
theorem Event.readLine_add
    (number lines : Nat)
    (line : String) :
    readLine (number + lines) line =
      (readLine number line).mapError fun malformed => malformed.furtherDown lines := by
  rw [readLine, readLine]
  cases read line.toList <;> rfl

namespace EventLog

/-! ## Line by line -/

/-- The first line is read, and then the others. -/
theorem readLines_cons
    (number : Nat)
    (raw : List Char)
    (rest : List (List Char)) :
    readLines number (raw :: rest) =
      readLines number [raw] >>= fun events => (events ++ ·) <$> readLines (number + 1) rest := by
  simp only [readLines]
  split
  next => exact (id_map (readLines (number + 1) rest)).symm
  next =>
    cases Event.readLine number _ with
    | error malformed => rfl
    | ok event => cases readLines (number + 1) rest <;> rfl

/-- Lines are read, and then the lines behind them. -/
theorem readLines_append
    (number : Nat)
    (lines more : List (List Char)) :
    readLines number (lines ++ more) =
      readLines number lines >>= fun events =>
        (events ++ ·) <$> readLines (number + lines.length) more := by
  induction lines generalizing number with
  | nil => exact (id_map (readLines number more)).symm
  | cons raw rest inductionHypothesis =>
      have behind : number + 1 + rest.length = number + (raw :: rest).length := by
        rw [List.length_cons]
        omega
      rw [List.cons_append, readLines_cons, inductionHypothesis, readLines_cons number raw rest,
        behind]
      cases readLines number [raw] with
      | error malformed => rfl
      | ok events =>
          cases readLines (number + 1) rest with
          | error malformed => rfl
          | ok later =>
              cases readLines (number + (raw :: rest).length) more with
              | error malformed => rfl
              | ok last => exact congrArg Except.ok (List.append_assoc events later last).symm

/-- Lines further down are read in the same way and refused further down. -/
theorem readLines_add
    (number moved : Nat)
    (lines : List (List Char)) :
    readLines (number + moved) lines =
      (readLines number lines).mapError fun malformed => malformed.furtherDown moved := by
  induction lines generalizing number with
  | nil => rfl
  | cons raw rest inductionHypothesis =>
      rw [readLines, readLines, Nat.add_right_comm, inductionHypothesis, Event.readLine_add]
      split
      next => rfl
      next =>
        cases Event.readLine number _ with
        | error malformed => rfl
        | ok event => cases readLines (number + 1) rest <;> rfl

/-- Carriage returns at the end of the last line do not matter. -/
theorem readLines_append_returns
    (number returns : Nat)
    (lines : List (List Char))
    (last : List Char) :
    readLines number (lines ++ [last ++ List.replicate returns '\r']) =
      readLines number (lines ++ [last]) := by
  have areReturns : ∀ character ∈ List.replicate returns '\r',
      decide (character = '\r') = true := by
    simp
  have trimmed := Text.trimEnd_append (fun character => character = '\r') areReturns last
  rw [readLines_append, readLines_append]
  simp only [readLines, trimmed]

/-! ## Events of a log -/

/-- Every event that is read is written on one of the lines. -/
theorem exists_isLineOf_of_readLines
    {number : Nat}
    {lines : List (List Char)}
    {events : List (Event Float)}
    (accepted : readLines number lines = .ok events) :
    ∀ event ∈ events, ∃ raw ∈ lines, ∃ kind key time rest,
      event.IsLineOf (Text.trimEnd (fun character => character = '\r') raw) kind key time rest := by
  induction lines generalizing number events with
  | nil =>
      cases accepted
      simp
  | cons raw rest inductionHypothesis =>
      have ofRest : ∀ {later}, readLines (number + 1) rest = .ok later →
          ∀ event ∈ later, ∃ written ∈ raw :: rest, ∃ kind key time others, event.IsLineOf
            (Text.trimEnd (fun character => character = '\r') written) kind key time others := by
        intro later isLater event member
        obtain ⟨written, isLine, fields⟩ := inductionHypothesis isLater event member
        exact ⟨written, List.mem_cons_of_mem raw isLine, fields⟩
      simp only [readLines] at accepted
      split at accepted
      next => exact ofRest accepted
      next =>
        split at accepted
        next => cases accepted
        next event isEvent =>
          split at accepted
          next => cases accepted
          next later isLater =>
            cases accepted
            rw [Event.readLine_eq_ok_iff, String.toList_ofList] at isEvent
            have isLine := Event.isLineOf_of_read isEvent
            exact List.forall_mem_cons.mpr
              ⟨⟨raw, List.mem_cons_self, isLine⟩, ofRest isLater⟩

theorem exists_isLineOf_of_read
    {text : String}
    {events : List (Event Float)}
    (accepted : read text = .ok events) :
    ∀ event ∈ events, ∃ raw ∈ Text.pieces '\n' text.toList, ∃ kind key time rest,
      event.IsLineOf (Text.trimEnd (fun character => character = '\r') raw) kind key time rest :=
  exists_isLineOf_of_readLines accepted

/-! ## Two logs -/

/-- Two logs with an end of line between them are refused as the first log is, if that is
refused; else as the second one is, as many lines further down as the first log has. If
neither is refused they are read as the events of the first and then those of the
second. The end of line is a line feed that any number of carriage returns may precede. -/
theorem read_append
    (first second : String)
    (returns : Nat) :
    read (first ++ String.ofList (List.replicate returns '\r') ++ "\n" ++ second) =
      match read first, read second with
      | .error malformed, _ => .error malformed
      | .ok _, .error malformed =>
          .error { malformed with line := malformed.line + 1 + first.toList.count '\n' }
      | .ok events, .ok later => .ok (events ++ later) := by
  have apart : (first ++ String.ofList (List.replicate returns '\r') ++ "\n" ++ second).toList =
      (first.toList ++ List.replicate returns '\r') ++ '\n' :: second.toList := by
    simp
  have noFeed : '\n' ∉ List.replicate returns '\r' := by
    simp [List.mem_replicate]
  obtain ⟨front, last, pieces, lengthened⟩ := Text.exists_pieces_append noFeed first.toList
  have lengthenedLines : (front ++ [last ++ List.replicate returns '\r']).length =
      first.toList.count '\n' + 1 := by
    rw [← Text.length_pieces, pieces, List.length_append, List.length_append]
    rfl
  rw [read, apart, Text.pieces_append, lengthened, readLines_append, lengthenedLines,
    readLines_append_returns, readLines_add, read, read, pieces]
  cases readLines 1 (front ++ [last]) with
  | error malformed => rfl
  | ok events =>
      cases readLines 1 (Text.pieces '\n' second.toList) with
      | ok later => rfl
      | error malformed =>
          have line : malformed.line + (first.toList.count '\n' + 1) =
              malformed.line + 1 + first.toList.count '\n' := by
            omega
          exact congrArg (fun line => Except.error { malformed with line := line }) line

-- Lines are counted whether they are blank or not, and whatever ends them.
example : read "\r\n \n\r\r\nPY_JUMP,a.py:f:1:1,0\r" =
    .error ⟨4, "PY_JUMP,a.py:f:1:1,0", .kind "PY_JUMP"⟩ := by
  decide +kernel

end EventLog
end FlameProfile
