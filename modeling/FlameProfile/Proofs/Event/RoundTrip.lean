import Mathlib
import FlameProfile.Proofs.Call.Grounding
import FlameProfile.Proofs.Call.Interleaving
import FlameProfile.Proofs.Event.Log

/-!
# Keys and locations are read back

The text of a location is read back as the location exactly if the function holds no
colon, and the text of a key as the key exactly if the function and the thread hold none
and are not empty. Every key that is read from a text is such a key, so the keys of a log
can be told apart by their texts, and so can the locations in what is reconstructed from it.
-/

namespace FlameProfile

/-! ## Locations -/

namespace Location

variable {location : Location}

/-- A text is read as a location if it puts the parts of the location together, with a
numeral for the line. -/
theorem read_eq_ok_iff {text : String} :
    read text = .ok location ↔ ∃ numeral,
      text.toList = location.source.toList ++ ':' :: location.function.toList ++ ':' :: numeral ∧
        ':' ∉ location.function.toList ∧ Numeral.Denotes numeral location.line.toNat := by
  rw [read]
  constructor
  · intro isRead
    split at isRead
    next numeral function source cut =>
      obtain ⟨joined, -, functionFree⟩ := Text.fieldsFromEnd_eq_three_iff.mp cut
      split at isRead
      next line lineRead =>
        rw [Except.ok.injEq] at isRead
        subst isRead
        refine ⟨numeral, ?_, ?_, readLine_eq_ok_iff.mp lineRead⟩
        · simpa only [String.toList_ofList] using joined
        · rwa [String.toList_ofList]
      next => exact absurd isRead (by simp)
    next => exact absurd isRead (by simp)
  · rintro ⟨numeral, joined, functionFree, denotes⟩
    have cut := Text.fieldsFromEnd_eq_three_iff.mpr
      ⟨joined, EventKey.colon_not_mem_of_denotes denotes, functionFree⟩
    rw [cut]
    simp only [readLine_eq_ok_iff.mpr denotes, String.ofList_toList]

/-- The text of a location is read back if its function holds no colon. -/
theorem read_write_iff :
    read location.write = .ok location ↔ ':' ∉ location.function.toList := by
  rw [read_eq_ok_iff]
  constructor
  · rintro ⟨-, -, functionFree, -⟩
    exact functionFree
  · intro functionFree
    refine ⟨Numeral.write location.line.toNat, ?_, functionFree, Numeral.denotes_write _⟩
    simp [write, writeLine]

end Location

/-! ## Keys -/

namespace EventKey

variable {key : EventKey}

/-- The function and the thread of a key are not empty and hold no colon. -/
structure IsNamed (key : EventKey) : Prop where
  function_nonempty : key.function ≠ ""
  function_free : ':' ∉ key.function.toList
  thread_nonempty : key.thread ≠ ""
  thread_free : ':' ∉ key.thread.toList

theorem IsTextOf.isNamed
    {text numeral : List Char}
    (isText : IsTextOf key text numeral) :
    key.IsNamed where
  function_nonempty := isText.function_nonempty
  function_free := isText.function_free
  thread_nonempty := isText.thread_nonempty
  thread_free := isText.thread_free

theorem isNamed_of_read
    {text : String}
    (isRead : read text = .ok key) :
    key.IsNamed := by
  obtain ⟨numeral, isText⟩ := isTextOf_of_read isRead
  exact isText.isNamed

/-- The text of a key is read back if its function and its thread are names. -/
theorem read_write_iff : read key.write = .ok key ↔ key.IsNamed := by
  refine ⟨isNamed_of_read, ?_⟩
  intro named
  refine read_eq_ok_iff.mpr ⟨Numeral.write key.line.toNat, ?_⟩
  constructor
  case joined => simp [write, Location.write, Location.writeLine]
  case function_nonempty => exact named.function_nonempty
  case function_free => exact named.function_free
  case line => exact Numeral.denotes_write key.line.toNat
  case thread_nonempty => exact named.thread_nonempty
  case thread_free => exact named.thread_free

theorem IsNamed.read_location
    (named : key.IsNamed) :
    Location.read key.toLocation.write = .ok key.toLocation :=
  Location.read_write_iff.mpr named.function_free

/-- Named keys with one text are one key. -/
theorem IsNamed.eq_of_write_eq
    {other : EventKey}
    (named : key.IsNamed)
    (otherNamed : other.IsNamed)
    (sameText : key.write = other.write) :
    key = other := by
  have isRead := read_write_iff.mpr named
  rw [sameText, read_write_iff.mpr otherNamed, Except.ok.injEq] at isRead
  exact isRead.symm

end EventKey

/-! ## Logs -/

theorem EventLog.isNamed_of_read
    {text : String}
    {events : List (Event Float)}
    (accepted : read text = .ok events) :
    ∀ event ∈ events, event.key.IsNamed := by
  intro event member
  obtain ⟨_, _, _, _, _, _, isLine⟩ := exists_isLineOf_of_read accepted event member
  obtain ⟨numeral, isText⟩ := isLine.key
  exact isText.isNamed

namespace Reconstruction

variable {Time : Type} [Arithmetic Time] {rule : ParentRule Time} {events : List (Event Time)}

/-- Where all keys of a log are named, so are the keys of its calls. -/
theorem isNamed_of_mem_keys
    (named : ∀ event ∈ events, event.key.IsNamed)
    {key : EventKey}
    (isKey : key ∈ (ofEvents rule events).keys) :
    key.IsNamed := by
  obtain ⟨event, member, -, rfl⟩ := (mem_keys_ofEvents rule events key).mp isKey
  exact named event member

/-- Every key in a trace is that of a call. -/
theorem mem_keys_of_mem_trace
    {record : CallRecord Time}
    (member : record ∈ (ofEvents rule events).records)
    {caller : EventKey}
    (inTrace : caller ∈ record.trace) :
    caller ∈ (ofEvents rule events).keys :=
  ((grounded_ofEvents rule events).traces record member).mem_keys inTrace

/-- The locations of a resource, its own and those of its callers, are those of calls. -/
theorem exists_key_of_mem_resources
    {resource : Resource Time}
    (member : resource ∈ (ofEvents rule events).resources)
    {location : Location}
    (isPart : location ∈ resource.location :: resource.trace) :
    ∃ key ∈ (ofEvents rule events).keys, key.toLocation = location := by
  obtain ⟨⟨key, record⟩, completed, rfl⟩ := List.mem_map.mp member
  have grounds := grounds_of_mem_callsOf (mem_completed_iff.mp completed)
  rcases List.mem_cons.mp isPart with own | outer
  · exact ⟨key, grounds.mem_keys (by simp), own.symm⟩
  · obtain ⟨caller, inTrace, isCaller⟩ := List.mem_map.mp outer
    exact ⟨caller, grounds.mem_keys (List.mem_append_left _ inTrace), isCaller⟩

end Reconstruction

namespace EventKey

/-- A key that is read from a text is read back from its own text, and its location from
the text of the location. The keys that are read back from their texts are those with a
function and a thread that are not empty and hold no colon. So in what is reconstructed
from a log that can be read, whatever rule finds the parents, the locations in all traces
and resources are read back from their texts, and keys with one text are one key, be they
of one log or of two. -/
theorem texts_readBack :
    (∀ text key, read text = .ok key →
      read key.write = .ok key ∧ Location.read key.toLocation.write = .ok key.toLocation) ∧
    (∀ key, read key.write = .ok key ↔ key.IsNamed) ∧
    (∀ text events, EventLog.read text = .ok events → ∀ rule,
      (∀ record ∈ (Reconstruction.ofEvents rule events).records, ∀ caller ∈ record.trace,
        Location.read caller.toLocation.write = .ok caller.toLocation) ∧
      ∀ resource ∈ (Reconstruction.ofEvents rule events).resources,
        ∀ location ∈ resource.location :: resource.trace,
          Location.read location.write = .ok location) ∧
    ∀ text events otherText otherEvents,
      EventLog.read text = .ok events → EventLog.read otherText = .ok otherEvents →
        ∀ event ∈ events, ∀ other ∈ otherEvents,
          event.key.write = other.key.write → event.key = other.key := by
  refine ⟨?_, fun key => read_write_iff, ?_, ?_⟩
  · intro text key isRead
    have named := isNamed_of_read isRead
    exact ⟨read_write_iff.mpr named, named.read_location⟩
  · intro text events accepted rule
    have named := EventLog.isNamed_of_read accepted
    constructor
    · intro record member caller inTrace
      have isKey := Reconstruction.mem_keys_of_mem_trace member inTrace
      exact (Reconstruction.isNamed_of_mem_keys named isKey).read_location
    · intro resource member location isPart
      obtain ⟨key, isKey, rfl⟩ := Reconstruction.exists_key_of_mem_resources member isPart
      exact (Reconstruction.isNamed_of_mem_keys named isKey).read_location
  · intro text events otherText otherEvents accepted otherAccepted event member other otherMember
    exact (EventLog.isNamed_of_read accepted event member).eq_of_write_eq
      (EventLog.isNamed_of_read otherAccepted other otherMember)

/-- The key of a function whose source has a colon. -/
def driveKey : EventKey :=
  ⟨⟨"C:/a.py", "main", 7⟩, "1"⟩

/-- A log of a call of `driveKey`, whose line is written in two ways, with a callee that
has no source. -/
def driveText : String :=
  "PY_START,C:/a.py:main:+07:1,0\nPY_START,:load:2:1,1\nPY_RETURN,:load:2:1,2\n" ++
    "PY_RETURN,C:/a.py:main:7:1,4\n"

def driveLog : List (Event Float) :=
  [ ⟨.started, driveKey, 0.0, none⟩, ⟨.started, ⟨⟨"", "load", 2⟩, "1"⟩, 1, none⟩
  , ⟨.returned, ⟨⟨"", "load", 2⟩, "1"⟩, 2, none⟩, ⟨.returned, driveKey, 4, none⟩ ]

theorem texts_readBack_driveText :
    read "C:/a.py:main:+07:1" = .ok driveKey ∧
    read driveKey.write = .ok driveKey ∧
    Location.read driveKey.toLocation.write = .ok driveKey.toLocation ∧
    EventLog.read driveText = .ok driveLog ∧
    (Reconstruction.ofEvents ParentStrategy.nearest.rule driveLog).resources.map Resource.trace =
      [[], [driveKey.toLocation]] ∧
    (∀ resource ∈ (Reconstruction.ofEvents ParentStrategy.nearest.rule driveLog).resources,
      ∀ location ∈ resource.location :: resource.trace,
        Location.read location.write = .ok location) ∧
    ∀ event ∈ driveLog, ∀ other ∈ driveLog,
      event.key.write = other.key.write → event.key = other.key := by
  have isRead : read "C:/a.py:main:+07:1" = .ok driveKey := by decide +kernel
  have accepted : EventLog.read driveText = .ok driveLog := by decide +kernel
  obtain ⟨ofKey, -, ofLog, ofLogs⟩ := texts_readBack
  exact ⟨isRead, (ofKey _ _ isRead).1, (ofKey _ _ isRead).2, accepted, by decide +kernel,
    (ofLog _ _ accepted ParentStrategy.nearest.rule).2, ofLogs _ _ _ _ accepted accepted⟩

end EventKey
end FlameProfile
