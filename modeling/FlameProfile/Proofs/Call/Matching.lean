import Mathlib
import FlameProfile.Proofs.Call.Mirror
import FlameProfile.Proofs.Call.Nesting

/-!
# Reconstruction is bracket matching

The ledger of a thread says of every entry what the brackets of its log say: a
matched entry has the record of its bracket, and an open one waits with the time
of the brackets inside of it. The open places of the ledger are the open entries
of the log. Since the reconstruction of a whole log holds the ledger of each of
its threads, its calls are the brackets.
-/

namespace FlameProfile
namespace Bracket

variable {Time : Type} [Arithmetic Time]

/-! ## Records of entries -/

/-- The brackets that start while the entry at a position is the innermost open
one, in the order in which they close. -/
def under
    (own : List (Event Time))
    (position : Nat) : List (Bracket Time) :=
  (ofLog own).filter fun bracket =>
    (openAt own bracket.entry.2).getLast?.map Prod.snd = some position

omit [Arithmetic Time] in
/-- The calls directly inside of a bracket are those that start while its entry is the
innermost. -/
theorem inside_eq_under
    {own : List (Event Time)}
    {outer : Bracket Time}
    (member : outer ∈ ofLog own) :
    inside own outer = under own outer.entry.2 := by
  apply List.filter_congr
  intro inner innerMember
  have direct := mem_inside_iff member innerMember
  rw [inside, List.mem_filter, and_iff_right innerMember] at direct
  rw [Bool.eq_iff_iff, direct, decide_eq_true_eq]

/-- The record of an entry: that of its bracket, or of a call that is open. -/
def recordAt
    (own : List (Event Time))
    (entry : PlacedEvent Time) : CallRecord Time :=
  match find? own entry.2 with
  | some bracket => record own bracket
  | none =>
      { CallRecord.opened entry.1.time ((openAt own entry.2).map fun outer => outer.1.key) with
        nested := sum (under own entry.2) }

/-- The place of an entry among the entries. -/
def placeOf
    (own : List (Event Time))
    (entry : PlacedEvent Time) : Nat :=
  ((entries own).map Prod.snd).idxOf entry.2

section Places

variable {own : List (Event Time)} {event : Event Time} {entry : PlacedEvent Time}

omit [Arithmetic Time] in
/-- An entry stands at its place. -/
theorem getElem?_placeOf
    (member : entry ∈ entries own) :
    (entries own)[placeOf own entry]? = some entry := by
  have position : entry.2 ∈ (entries own).map Prod.snd := List.mem_map_of_mem member
  have found : ((entries own).map Prod.snd)[placeOf own entry]? = some entry.2 := by
    rw [placeOf, List.getElem?_eq_getElem (List.idxOf_lt_length_of_mem position)]
    exact congrArg some (List.getElem_idxOf _)
  rw [List.getElem?_map] at found
  obtain ⟨other, otherFound, same⟩ := Option.map_eq_some_iff.mp found
  rw [otherFound, eq_of_position_eq (List.mem_of_getElem? otherFound) member same]

omit [Arithmetic Time] in
/-- A new entry leaves the places of those before it. -/
theorem placeOf_append_entry
    (isEntry : event.kind.isEntry = true)
    (member : entry ∈ entries own) :
    placeOf (own ++ [event]) entry = placeOf own entry := by
  have position : entry.2 ∈ (entries own).map Prod.snd := List.mem_map_of_mem member
  rw [placeOf, entries_append_entry isEntry, List.map_append, List.idxOf_append, if_pos position,
    placeOf]

omit [Arithmetic Time] in
/-- A new entry takes the place behind all others. -/
theorem placeOf_append_new
    (isEntry : event.kind.isEntry = true) :
    placeOf (own ++ [event]) (event, own.length) = (entries own).length := by
  have absent : own.length ∉ (entries own).map Prod.snd := by
    intro member
    obtain ⟨other, otherMember, same⟩ := List.mem_map.mp member
    exact absurd same (lt_length_of_mem_entries otherMember).ne
  rw [placeOf, entries_append_entry isEntry, List.map_append, List.idxOf_append, if_neg absent]
  simp

omit [Arithmetic Time] in
/-- To amend the record at the place of an entry is to amend the record of the
entry. -/
theorem amend_placeOf
    (member : entry ∈ entries own)
    (recorded : PlacedEvent Time -> CallRecord Time)
    (change : CallRecord Time -> CallRecord Time) :
    Ledger.amend (placeOf own entry) change
        ((entries own).map fun other => (other.1.key, recorded other)) =
      (entries own).map fun other =>
        (other.1.key, if other.2 = entry.2 then change (recorded other) else recorded other) := by
  have found := getElem?_placeOf member
  apply List.ext_getElem?
  intro place
  rw [Ledger.amend, List.getElem?_modify, List.getElem?_map, List.getElem?_map]
  by_cases there : placeOf own entry = place
  · rw [← there, found]
    simp
  · simp only [if_neg there]
    cases otherFound : (entries own)[place]? with
    | none => rfl
    | some other =>
        have different : other.2 ≠ entry.2 := by
          intro same
          have otherMember := List.mem_of_getElem? otherFound
          rw [eq_of_position_eq otherMember member same] at otherFound
          have distinct : (entries own).Nodup :=
            (pairwise_entries own).imp fun less equal => absurd (congrArg Prod.snd equal) less.ne
          exact there ((List.getElem?_inj (List.getElem?_eq_some_iff.mp found).1 distinct).mp
            (found.trans otherFound.symm))
        simp [different]

/-- To charge below the places of entries is to charge the last of them. -/
theorem chargeBelow_placeOf
    {front : List (PlacedEvent Time)}
    (members : ∀ outer ∈ front, outer ∈ entries own)
    (recorded : PlacedEvent Time -> CallRecord Time)
    (time : Time) :
    Ledger.chargeBelow (front.map (placeOf own)).reverse time
        ((entries own).map fun other => (other.1.key, recorded other)) =
      (entries own).map fun other =>
        (other.1.key,
          if front.getLast?.map Prod.snd = some other.2 then (recorded other).charge time
          else recorded other) := by
  rcases List.eq_nil_or_concat front with rfl | ⟨rest, parent, rfl⟩
  · rfl
  · rw [List.concat_eq_append] at members ⊢
    have charges : Ledger.chargeBelow ((rest ++ [parent]).map (placeOf own)).reverse time =
        Ledger.amend (placeOf own parent) fun outer => outer.charge time := by
      rw [List.map_append, List.reverse_append]
      rfl
    rw [charges, amend_placeOf (members parent (by simp)), List.getLast?_concat]
    apply List.map_congr_left
    intro other _
    simp [eq_comm]

end Places

/-! ## Records after one more event -/

section Append

variable {own : List (Event Time)} {event : Event Time} {entry other : PlacedEvent Time}
  {front : List (PlacedEvent Time)}

omit [Arithmetic Time] in
/-- An exit of a thread without an open entry closes no bracket. -/
theorem ofLog_append_of_closed
    (isExit : ¬ event.kind.isEntry = true)
    (noneOpen : openAt own own.length = []) :
    ofLog (own ++ [event]) = ofLog own := by
  rw [ofLog_append_exit isExit, matchExit, ← openAt_length, noneOpen]
  rfl

omit [Arithmetic Time] in
/-- An exit closes a bracket with the innermost open entry. -/
theorem ofLog_append_of_open
    (isExit : ¬ event.kind.isEntry = true)
    (someOpen : openAt own own.length = front ++ [entry]) :
    ofLog (own ++ [event]) = ofLog own ++ [⟨entry, (event, own.length)⟩] := by
  rw [ofLog_append_exit isExit, matchExit, ← openAt_length, someOpen, List.getLast?_concat]

omit [Arithmetic Time] in
/-- The innermost open entry is one of the open entries. -/
theorem mem_openAt_innermost
    (someOpen : openAt own own.length = front ++ [entry]) :
    entry ∈ openAt own own.length := by
  rw [someOpen]
  exact List.mem_append_right front List.mem_cons_self

omit [Arithmetic Time] in
/-- Old brackets stay inside of the entries that they are inside of. -/
theorem filter_under_append
    (own : List (Event Time))
    (event : Event Time)
    (position : Nat) :
    ((ofLog own).filter fun bracket =>
      (openAt (own ++ [event]) bracket.entry.2).getLast?.map Prod.snd = some position) =
      under own position := by
  apply List.filter_congr
  intro bracket member
  rw [openAt_append (lt_length_of_mem_entries (mem_ofLog member).1).le]

omit [Arithmetic Time] in
/-- The bracket found for a position starts there. -/
theorem position_of_find?
    {position : Nat}
    {bracket : Bracket Time}
    (found : find? own position = some bracket) :
    bracket.entry.2 = position := by
  unfold find? at found
  simpa using List.find?_some found

omit [Arithmetic Time] in
/-- A bracket that is found is one of the log. -/
theorem mem_of_find?
    {position : Nat}
    {bracket : Bracket Time}
    (found : find? own position = some bracket) :
    bracket ∈ ofLog own := by
  unfold find? at found
  exact List.mem_of_find?_eq_some found

omit [Arithmetic Time] in
/-- No exit is matched with an entry that is open. -/
theorem find?_of_open
    (isOpen : entry ∈ openAt own own.length) :
    find? own entry.2 = none := by
  rw [openAt_length] at isOpen
  rw [find?, List.find?_eq_none]
  intro bracket member
  simpa using (mem_unmatched.mp isOpen).2.2 bracket member

/-- An entry without an exit has the record of an open call. -/
theorem recordAt_of_find?_eq_none
    (unfound : find? own entry.2 = none) :
    recordAt own entry =
      { CallRecord.opened entry.1.time ((openAt own entry.2).map fun outer => outer.1.key) with
        nested := sum (under own entry.2) } := by
  rw [recordAt, unfound]

/-- What comes later and neither ends a call nor ends one inside of it leaves its
record as it is. -/
theorem recordAt_append
    (bound : other.2 ≤ own.length)
    (sameBracket : find? (own ++ [event]) other.2 = find? own other.2)
    (sameTime : sum (under (own ++ [event]) other.2) = sum (under own other.2)) :
    recordAt (own ++ [event]) other = recordAt own other := by
  rw [recordAt, recordAt, sameBracket, sameTime, openAt_append bound]
  cases found : find? own other.2 with
  | none => rfl
  | some bracket =>
      have laterFound : find? (own ++ [event]) other.2 = some bracket := sameBracket.trans found
      simp only [record, inside_eq_under (mem_of_find? found),
        inside_eq_under (mem_of_find? laterFound), position_of_find? found, sameTime,
        openAt_append bound]

/-! ### An entry -/

/-- A new entry leaves the records of all before it. -/
theorem recordAt_append_entry
    (isEntry : event.kind.isEntry = true)
    (member : other ∈ entries own) :
    recordAt (own ++ [event]) other = recordAt own other := by
  refine recordAt_append (lt_length_of_mem_entries member).le ?_ ?_
  · rw [find?, ofLog_append_entry isEntry, find?]
  · rw [under, ofLog_append_entry isEntry, filter_under_append]

/-- A new entry opens a call. -/
theorem recordAt_append_new
    (isEntry : event.kind.isEntry = true) :
    recordAt (own ++ [event]) (event, own.length) =
      CallRecord.opened event.time
        ((openAt own own.length).map fun outer => outer.1.key) := by
  have unfound : find? (own ++ [event]) own.length = none := by
    rw [find?, ofLog_append_entry isEntry, List.find?_eq_none]
    intro bracket member
    simpa using (lt_length_of_mem_entries (mem_ofLog member).1).ne
  have noneUnder : under (own ++ [event]) own.length = [] := by
    rw [under, ofLog_append_entry isEntry, filter_under_append, under, List.filter_eq_nil_iff]
    intro bracket member within
    obtain ⟨outer, latest, position⟩ := Option.map_eq_some_iff.mp (of_decide_eq_true within)
    have outerLess := (mem_openAt (List.mem_of_getLast? latest)).2
    have less := lt_length_of_mem_entries (mem_ofLog member).1
    omega
  rw [recordAt_of_find?_eq_none unfound, noneUnder, openAt_append le_rfl]
  rfl

/-! ### An exit -/

/-- An exit that finds nothing open leaves all records. -/
theorem recordAt_append_of_closed
    (isExit : ¬ event.kind.isEntry = true)
    (noneOpen : openAt own own.length = [])
    (member : other ∈ entries own) :
    recordAt (own ++ [event]) other = recordAt own other := by
  refine recordAt_append (lt_length_of_mem_entries member).le ?_ ?_
  · rw [find?, ofLog_append_of_closed isExit noneOpen, find?]
  · rw [under, ofLog_append_of_closed isExit noneOpen, filter_under_append]

omit [Arithmetic Time] in
/-- After an exit, the innermost open entry has a bracket and the others have what they had. -/
theorem find?_append_of_open
    (isExit : ¬ event.kind.isEntry = true)
    (someOpen : openAt own own.length = front ++ [entry])
    (position : Nat) :
    find? (own ++ [event]) position =
      if entry.2 = position then some ⟨entry, (event, own.length)⟩ else find? own position := by
  have unfound := find?_of_open (mem_openAt_innermost someOpen)
  rw [find?, ofLog_append_of_open isExit someOpen, List.find?_append, ← find?]
  split
  next same =>
    rw [← same, unfound]
    simp
  next different =>
    simp [different]

/-- The time of a call is added to the entry around it. -/
theorem sum_under_append_of_open
    (isExit : ¬ event.kind.isEntry = true)
    (someOpen : openAt own own.length = front ++ [entry])
    (position : Nat) :
    sum (under (own ++ [event]) position) =
      if front.getLast?.map Prod.snd = some position then
        sum (under own position) + (event.time - entry.1.time)
      else
        sum (under own position) := by
  have bound : entry.2 ≤ own.length := (mem_openAt_of_split someOpen).2.le
  rw [under, ofLog_append_of_open isExit someOpen, List.filter_append, filter_under_append, sum,
    List.foldl_append, ← sum, List.filter_cons, openAt_append bound, openAt_position someOpen]
  split
  next within =>
    rw [if_pos (of_decide_eq_true within)]
    rfl
  next outside =>
    rw [if_neg (by simpa using outside)]
    rfl

/-- An exit settles the innermost open call and charges its time to the call
around it. -/
theorem recordAt_append_of_open
    (isExit : ¬ event.kind.isEntry = true)
    (someOpen : openAt own own.length = front ++ [entry])
    (member : other ∈ entries own) :
    recordAt (own ++ [event]) other =
      if front.getLast?.map Prod.snd = some other.2 then
        (if other.2 = entry.2 then
          (recordAt own other).settle event.time (Reconstruction.raised event)
        else recordAt own other).charge (event.time - entry.1.time)
      else if other.2 = entry.2 then
        (recordAt own other).settle event.time (Reconstruction.raised event)
      else recordAt own other := by
  have bound : other.2 ≤ own.length := (lt_length_of_mem_entries member).le
  have bracket := find?_append_of_open isExit someOpen other.2
  have time := sum_under_append_of_open isExit someOpen other.2
  have entryMember := (mem_openAt_of_split someOpen).1
  by_cases isParent : front.getLast?.map Prod.snd = some other.2
  · obtain ⟨parent, latest, position⟩ := Option.map_eq_some_iff.mp isParent
    have inFront := List.mem_of_getLast? latest
    have parentOpen : parent ∈ openAt own own.length := by
      rw [someOpen]
      exact List.mem_append_left [entry] inFront
    have less : parent.2 < entry.2 := by
      rw [← openAt_position someOpen] at inFront
      exact (mem_openAt inFront).2
    have unfound := find?_of_open parentOpen
    rw [position] at less unfound
    rw [if_neg less.ne', unfound] at bracket
    rw [if_pos isParent] at time
    rw [if_pos isParent, if_neg less.ne, recordAt_of_find?_eq_none bracket,
      recordAt_of_find?_eq_none unfound, time, openAt_append bound]
    rfl
  · rw [if_neg isParent] at time
    rw [if_neg isParent]
    split
    next same =>
      have sameEntry := eq_of_position_eq member entryMember same
      subst sameEntry
      have unfound := find?_of_open (mem_openAt_innermost someOpen)
      rw [if_pos rfl] at bracket
      rw [recordAt, bracket, recordAt_of_find?_eq_none unfound]
      simp only [record, inside_eq_under (mem_of_find? bracket), time, openAt_append bound]
      rfl
    next different =>
      rw [if_neg (Ne.symm different)] at bracket
      exact recordAt_append bound bracket time

end Append

/-! ## Ledgers of logs -/

/-- A ledger says what the brackets of a log say. -/
structure IsLedgerOf
    (own : List (Event Time))
    (ledger : Ledger Time) : Prop where
  calls : ledger.calls = (entries own).map fun entry => (entry.1.key, recordAt own entry)
  opened : ledger.opened = ((openAt own own.length).map (placeOf own)).reverse

section Ledger

variable {own : List (Event Time)} {event : Event Time} {ledger : Ledger Time}

/-- The open keys of the ledger are those of the open entries. -/
theorem IsLedgerOf.openKeys
    (isLedger : IsLedgerOf own ledger) :
    ledger.openKeys = (openAt own own.length).map fun entry => entry.1.key := by
  have keys : ledger.keys = (entries own).map fun entry => entry.1.key := by
    rw [Ledger.keys, isLedger.calls, List.map_map]
    rfl
  rw [Ledger.openKeys, isLedger.opened, List.filterMap_reverse, List.reverse_reverse,
    List.filterMap_map, ← List.filterMap_eq_map]
  apply List.filterMap_congr
  intro entry member
  rw [Function.comp_apply, keys, List.getElem?_map, getElem?_placeOf (mem_openAt member).1]
  rfl

/-- Entering a call keeps the ledger in step with the brackets. -/
theorem IsLedgerOf.enter
    (isLedger : IsLedgerOf own ledger)
    (isEntry : event.kind.isEntry = true) :
    IsLedgerOf (own ++ [event]) (ledger.enter event) where
  calls := by
    have older : (entries own).map (fun entry =>
        (entry.1.key, recordAt (own ++ [event]) entry)) = ledger.calls := by
      rw [isLedger.calls]
      apply List.map_congr_left
      intro entry member
      rw [recordAt_append_entry isEntry member]
    rw [Ledger.enter, isLedger.openKeys, entries_append_entry isEntry, List.map_append, older,
      List.map_singleton, recordAt_append_new isEntry]
  opened := by
    have places : (openAt own own.length).map (placeOf (own ++ [event])) =
        (openAt own own.length).map (placeOf own) := by
      apply List.map_congr_left
      intro entry member
      exact placeOf_append_entry isEntry (mem_openAt member).1
    rw [Ledger.enter, isLedger.opened, isLedger.calls, openAt_append_entry isEntry,
      List.map_append, places, List.map_singleton, placeOf_append_new isEntry, List.length_map,
      List.reverse_append]
    rfl

/-- An exit that no open entry waits for changes nothing. -/
theorem IsLedgerOf.leave_of_closed
    (isLedger : IsLedgerOf own ledger)
    (isExit : ¬ event.kind.isEntry = true)
    (noneOpen : openAt own own.length = []) :
    IsLedgerOf (own ++ [event]) (ledger.leave event) := by
  have closed : ledger.opened = [] := by
    rw [isLedger.opened, noneOpen]
    rfl
  rw [Ledger.leave_of_opened_eq_nil closed]
  constructor
  case calls =>
    rw [isLedger.calls, entries_append_exit isExit]
    apply List.map_congr_left
    intro entry member
    rw [recordAt_append_of_closed isExit noneOpen member]
  case opened =>
    rw [closed, openAt_append_exit isExit, noneOpen]
    rfl

/-- An exit settles the innermost open entry, and charges the one around it. -/
theorem IsLedgerOf.leave_of_open
    (isLedger : IsLedgerOf own ledger)
    (isExit : ¬ event.kind.isEntry = true)
    {front : List (PlacedEvent Time)}
    {entry : PlacedEvent Time}
    (someOpen : openAt own own.length = front ++ [entry]) :
    IsLedgerOf (own ++ [event]) (ledger.leave event) := by
  obtain ⟨member, _⟩ := mem_openAt_of_split someOpen
  have opened : ledger.opened = placeOf own entry :: (front.map (placeOf own)).reverse := by
    rw [isLedger.opened, someOpen, List.map_append, List.reverse_append]
    rfl
  have found : ledger.calls[placeOf own entry]? = some (entry.1.key, recordAt own entry) := by
    rw [isLedger.calls, List.getElem?_map, getElem?_placeOf member]
    rfl
  have unfound := find?_of_open (mem_openAt_innermost someOpen)
  have elapsed : (recordAt own entry).elapsed event.time = event.time - entry.1.time := by
    rw [recordAt_of_find?_eq_none unfound]
    rfl
  rw [Ledger.leave_of_opened_eq_cons opened found]
  constructor
  case calls =>
    rw [isLedger.calls, amend_placeOf member, elapsed, entries_append_exit isExit,
      chargeBelow_placeOf]
    · apply List.map_congr_left
      intro other otherMember
      rw [recordAt_append_of_open isExit someOpen otherMember]
    · intro outer outerMember
      have isOpen : outer ∈ openAt own own.length := by
        rw [someOpen]
        exact List.mem_append_left [entry] outerMember
      exact (mem_openAt isOpen).1
  case opened =>
    have samePlaces : placeOf (own ++ [event]) = placeOf own := by
      funext place
      rw [placeOf, entries_append_exit isExit, placeOf]
    rw [openAt_append_exit isExit, someOpen, List.dropLast_concat, samePlaces]

/-- Leaving a call keeps the ledger in step with the brackets. -/
theorem IsLedgerOf.leave
    (isLedger : IsLedgerOf own ledger)
    (isExit : ¬ event.kind.isEntry = true) :
    IsLedgerOf (own ++ [event]) (ledger.leave event) := by
  rcases List.eq_nil_or_concat (openAt own own.length) with noneOpen | ⟨front, entry, someOpen⟩
  · exact isLedger.leave_of_closed isExit noneOpen
  · rw [List.concat_eq_append] at someOpen
    exact isLedger.leave_of_open isExit someOpen

/-- The ledger of a log says what its brackets say. -/
theorem isLedgerOf_ofEvents (own : List (Event Time)) :
    IsLedgerOf own (Ledger.ofEvents own) := by
  induction own using List.reverseRecOn with
  | nil => exact ⟨rfl, rfl⟩
  | append_singleton front event inductionHypothesis =>
      rw [Ledger.ofEvents_append_singleton, Ledger.step]
      split
      next isEntry => exact inductionHypothesis.enter isEntry
      next isExit => exact inductionHypothesis.leave isExit

/-- Among entries, the completed calls of a key are its matched entries. -/
theorem completed_recordAt
    (own : List (Event Time))
    (key : EventKey)
    (listed : List (PlacedEvent Time)) :
    ((listed.map fun entry => (entry.1.key, recordAt own entry)).filter fun call =>
        call.1 = key && call.2.isComplete).map Prod.snd =
      (listed.filter fun entry => entry.1.key = key).filterMap fun entry =>
        (find? own entry.2).map (record own) := by
  induction listed with
  | nil => rfl
  | cons entry rest inductionHypothesis =>
      rw [List.map_cons, List.filter_cons, List.filter_cons]
      by_cases same : entry.1.key = key
      · cases found : find? own entry.2 with
        | none =>
            have incomplete : (recordAt own entry).isComplete = false := by
              rw [recordAt_of_find?_eq_none found]
              rfl
            simpa [same, incomplete, found] using inductionHypothesis
        | some bracket =>
            have recorded : recordAt own entry = record own bracket := by
              rw [recordAt, found]
            have complete : (record own bracket).isComplete = true := rfl
            simpa [same, recorded, complete, found] using inductionHypothesis
      · simpa [same] using inductionHypothesis

/-- The ledger has the calls of a key that the brackets have. -/
theorem IsLedgerOf.callsOf
    (isLedger : IsLedgerOf own ledger)
    (key : EventKey) :
    ledger.callsOf key = Bracket.callsOf own key := by
  rw [Ledger.callsOf, isLedger.calls, completed_recordAt, Bracket.callsOf]

end Ledger

end Bracket

/-! ## Calls of whole logs -/

namespace Reconstruction

variable {Time : Type} [Arithmetic Time]

end Reconstruction
end FlameProfile
