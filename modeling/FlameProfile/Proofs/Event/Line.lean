import Mathlib
import FlameProfile.Event.Line
import FlameProfile.Proofs.Event.Key

/-!
# What event lines say

A line is read as an event exactly if it is a row of three fields with commas between
them, behind which the text of an exception may follow: the token of the kind, a text of
the key and a finite number, with blanks around them or not. Every other line is
refused, with its number and as it stands.
-/

namespace FlameProfile

/-- A text is the token of a kind if the kind is found for it. -/
theorem EventKind.ofToken?_eq_some_iff
    {token : String}
    {kind : EventKind} :
    ofToken? token = some kind ↔ token = kind.token := by
  constructor
  · exact fun found => (token_of_ofToken? found).symm
  · rintro rfl
    exact ofToken?_token kind

namespace Event

variable {event : Event Float}

/-- A line puts the fields of an event together, and a rest of the line if there is a
comma behind them. -/
structure IsLineOf
    (event : Event Float)
    (line kind key time : List Char)
    (rest : Option (List Char)) : Prop where
  joined : line = kind ++ ',' :: key ++ ',' :: time ++ rest.elim [] fun rest => ',' :: rest
  kind_free : ',' ∉ kind
  key_free : ',' ∉ key
  time_free : ',' ∉ time
  kind : String.ofList (Text.trim kind) = event.kind.token
  key : ∃ numeral, EventKey.IsTextOf event.key (Text.trim key) numeral
  time : Decimal.read (Text.trim time) = .ok event.time
  finite : event.time.isFinite = true
  exception : event.exception =
    ((rest.map Text.trim).filter fun text => text ≠ []).map String.ofList

theorem readException_eq (field : List Char) :
    readException field =
      ((some (Text.trim field)).filter fun text => text ≠ []).map String.ofList := by
  rw [readException]
  cases Text.trim field <;> rfl

theorem readTime_eq_ok_iff
    {field : List Char}
    {time : Float} :
    readTime field = .ok time ↔
      Decimal.read (Text.trim field) = .ok time ∧ time.isFinite = true := by
  rw [readTime]
  cases Decimal.read (Text.trim field) with
  | error fault => simp
  | ok found =>
      change (if found.isFinite = true then _ else _) = _ ↔ _
      rw [Except.ok.injEq]
      split
      next finite =>
        rw [Except.ok.injEq]
        exact (and_iff_left_of_imp fun same => same ▸ finite).symm
      next infinite =>
        refine iff_of_false (by simp) ?_
        rintro ⟨rfl, finite⟩
        exact infinite finite

theorem readFields_eq_ok_iff
    {kind key time : List Char}
    {exception : Option String} :
    readFields kind key time exception = .ok event ↔
      String.ofList (Text.trim kind) = event.kind.token ∧
      (∃ numeral, EventKey.IsTextOf event.key (Text.trim key) numeral) ∧
      (Decimal.read (Text.trim time) = .ok event.time ∧ event.time.isFinite = true) ∧
      event.exception = exception := by
  have keyRead := @EventKey.read_eq_ok_iff (String.ofList (Text.trim key))
  simp only [String.toList_ofList] at keyRead
  rw [← EventKind.ofToken?_eq_some_iff, ← keyRead, ← readTime_eq_ok_iff]
  unfold readFields
  constructor
  · intro isRead
    split at isRead
    next => exact absurd isRead (by simp)
    next foundKind kindRead =>
      split at isRead
      next => exact absurd isRead (by simp)
      next foundKey keyRead =>
        split at isRead
        next => exact absurd isRead (by simp)
        next foundTime timeRead =>
          rw [Except.ok.injEq] at isRead
          subst isRead
          exact ⟨kindRead, keyRead, timeRead, rfl⟩
  · rintro ⟨kindRead, keyRead, timeRead, rfl⟩
    rw [kindRead, keyRead, timeRead]

theorem isLineOf_of_read
    {line : List Char}
    (isRead : read line = .ok event) :
    ∃ kind key time rest, IsLineOf event line kind key time rest := by
  unfold read at isRead
  split at isRead
  next kind key time cut =>
    obtain ⟨joined, kindFree, keyFree, timeFree⟩ := Text.fields_eq_three_iff.mp cut
    obtain ⟨isKind, isKey, ⟨isTime, finite⟩, exception⟩ := readFields_eq_ok_iff.mp isRead
    exact ⟨kind, key, time, none, {
      joined := by rw [Option.elim_none, List.append_nil, joined]
      kind_free := kindFree
      key_free := keyFree
      time_free := timeFree
      kind := isKind
      key := isKey
      time := isTime
      finite := finite
      exception := exception }⟩
  next kind key time rest cut =>
    obtain ⟨joined, kindFree, keyFree, timeFree⟩ := Text.fields_eq_four_iff.mp cut
    obtain ⟨isKind, isKey, ⟨isTime, finite⟩, exception⟩ := readFields_eq_ok_iff.mp isRead
    exact ⟨kind, key, time, some rest, {
      joined := joined
      kind_free := kindFree
      key_free := keyFree
      time_free := timeFree
      kind := isKind
      key := isKey
      time := isTime
      finite := finite
      exception := exception.trans (readException_eq rest) }⟩
  next => exact absurd isRead (by simp)

/-- A line is read as an event if it puts the fields of the event together. -/
theorem read_eq_ok_iff
    {line : List Char} :
    read line = .ok event ↔ ∃ kind key time rest, IsLineOf event line kind key time rest := by
  refine ⟨isLineOf_of_read, ?_⟩
  rintro ⟨kind, key, time, rest, isLine⟩
  have free := And.intro isLine.kind_free (And.intro isLine.key_free isLine.time_free)
  have joined := isLine.joined
  have isRead : ∀ exception, event.exception = exception →
      readFields kind key time exception = .ok event := fun exception isException =>
    readFields_eq_ok_iff.mpr
      ⟨isLine.kind, isLine.key, ⟨isLine.time, isLine.finite⟩, isException⟩
  cases rest with
  | none =>
      rw [Option.elim_none, List.append_nil] at joined
      rw [read, Text.fields_eq_three_iff.mpr ⟨joined, free⟩]
      exact isRead none isLine.exception
  | some rest =>
      rw [read, Text.fields_eq_four_iff.mpr ⟨joined, free⟩]
      exact isRead _ (isLine.exception.trans (readException_eq rest).symm)

theorem readLine_eq_ok_iff
    {number : Nat}
    {line : String} :
    readLine number line = .ok event ↔ read line.toList = .ok event := by
  rw [readLine]
  cases read line.toList <;> simp

/-- On every line an event is read exactly if the line puts its fields together, and a
line that does so for no event is refused with its number and as it stands. -/
theorem readLine_iff
    (number : Nat)
    (line : String) :
    (∀ event, readLine number line = .ok event ↔
      ∃ kind key time rest, IsLineOf event line.toList kind key time rest) ∧
    ((∃ fault, readLine number line = .error ⟨number, line, fault⟩) ↔
      ¬ ∃ event kind key time rest, IsLineOf event line.toList kind key time rest) := by
  simp only [← read_eq_ok_iff, readLine_eq_ok_iff, implies_true, true_and]
  rw [readLine]
  cases read line.toList <;> simp

-- Colons go to the source, commas to the exception.
example : (readLine 1 " PY_THROW ,C:/a.py:f:+07:1,2, boom, twice ").toOption.map
    (fun event => (event.key, event.exception)) =
      some (⟨⟨"C:/a.py", "f", 7⟩, "1"⟩, some "boom, twice") := by
  decide +kernel

end Event
end FlameProfile
