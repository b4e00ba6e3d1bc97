import Mathlib
import FlameProfile.Profile.Document
import FlameProfile.Proofs.Json.RoundTrip

/-!
# Profiles read back from their texts

The document of a profile names every field once, so taking it apart fills in every field
with what was written: a location, a map of texts in ascending order, a resource, and the
profile as a whole. Together with the reading of documents, a profile is read back from its
text as it was written.
-/

namespace FlameProfile

/-! ## Parts of documents -/

namespace Json

/-- A field that was not given yet is filled in. -/
@[simp] theorem fillOnce_none
    {Value : Type}
    (value : Value) :
    fillOnce none (.ok value) = .ok (some value) := rfl

/-- A field that has to be given is taken if it was. -/
@[simp] theorem required_some
    {Value : Type}
    (value : Value) :
    required (some value) = .ok value := rfl

@[simp] theorem asText_text (value : String) : asText (.text value) = .ok value := rfl

/-- A whole number below its limit is taken as it is. -/
theorem asNatural_natural
    {limit value : Nat}
    (fits : value < limit) :
    asNatural limit (.natural value) = .ok value :=
  if_pos fits

/-- A row of items that are read back is read back. -/
theorem asList_map
    {Item : Type}
    {decode : Json -> Except Fault Item}
    {encode : Item -> Json}
    {items : List Item}
    (decoded : ∀ item ∈ items, decode (encode item) = .ok item) :
    asList decode (.array (items.map encode)) = .ok items := by
  rw [asList]
  induction items with
  | nil => rfl
  | cons item items inductionHypothesis =>
      obtain ⟨first, others⟩ := List.forall_mem_cons.mp decoded
      rw [List.map_cons, decodeItems, first]
      simp only [inductionHypothesis others]
      rfl

end Json

/-! ## Locations and resources -/

namespace Location

/-- A location is read back from its members. -/
theorem ofJson_toJson (location : Location) :
    ofJson location.toJson = .ok location := by
  have fits : location.line.toNat < Numeral.wordLimit 32 := location.line.toNat_lt
  have line := Json.asNatural_natural fits
  have filled : location.toJson.fillFields ["source", "function", "line"] Draft.fill
      ⟨none, none, none⟩ =
        .ok ⟨some location.source, some location.function, some location.line.toNat⟩ := by
    rw [toJson, Json.record, Json.fillFields]
    simp [Json.fillMembers, Draft.fill, line]
  rw [ofJson, filled]
  exact congrArg Except.ok (by rw [UInt32.ofNat_toNat])

theorem readable_toJson (location : Location) :
    location.toJson.Readable :=
  ⟨trivial, trivial, Nat.lt_trans location.line.toNat_lt (by decide), trivial⟩

end Location

namespace Resource

/-- A resource whose calls fit into sixty-four bits is read back from its members. -/
theorem ofJson_toJson
    {resource : Resource Float}
    (fits : resource.calls < Numeral.wordLimit 64) :
    ofJson resource.toJson = .ok resource := by
  have calls := Json.asNatural_natural fits
  have trace : Json.asList Location.ofJson (.array (resource.trace.map Location.toJson)) =
      .ok resource.trace :=
    Json.asList_map fun location _ => location.ofJson_toJson
  have exceptions : Json.asList Json.asText (.array (resource.exceptions.map Json.text)) =
      .ok resource.exceptions :=
    Json.asList_map fun text _ => Json.asText_text text
  have filled : resource.toJson.fillFields
      ["amount", "uid", "tid", "type", "ncalls", "trace", "exceptions"] Draft.fill
      ⟨none, none, none, none, none, none, none⟩ =
        .ok ⟨some resource.amount, some resource.location, some resource.thread,
          some resource.kind, some resource.calls, some resource.trace,
          some resource.exceptions⟩ := by
    rw [toJson, Json.record, Json.fillFields]
    simp [Json.fillMembers, Draft.fill, Json.asNumber, Location.ofJson_toJson, calls, trace,
      exceptions]
  rw [ofJson, filled]
  rfl

/-- A resource can be read back from its text if its calls fit and its amount reads back. -/
theorem readable_toJson
    {resource : Resource Float}
    (fits : resource.calls < Numeral.wordLimit 64)
    (back : Json.ReadsBack resource.amount) :
    resource.toJson.Readable := by
  refine ⟨back, resource.location.readable_toJson, trivial, trivial, fits, ?_, ?_, trivial⟩
  · refine Json.readableItems_iff.mpr fun item member => ?_
    obtain ⟨location, _, rfl⟩ := List.mem_map.mp member
    exact location.readable_toJson
  · refine Json.readableItems_iff.mpr fun item member => ?_
    obtain ⟨text, _, rfl⟩ := List.mem_map.mp member
    exact trivial

end Resource

/-! ## Maps of texts -/

namespace TextMap

/-- Tables of texts with the same entries are the same table. -/
theorem eq_of_entries_eq
    {first second : TextMap}
    (same : first.entries = second.entries) :
    first = second := by
  cases first
  cases second
  congr

/-- An entry with a key above all others is put at the end. -/
theorem insertEntry_of_above
    {key : String}
    {entries : List (String × String)}
    (above : ∀ entry ∈ entries, entry.1 < key)
    (value : String) :
    insertEntry key value entries = entries ++ [(key, value)] := by
  induction entries with
  | nil => rfl
  | cons head entries inductionHypothesis =>
      obtain ⟨headBelow, othersBelow⟩ := List.forall_mem_cons.mp above
      rw [insertEntry, if_neg (lt_asymm headBelow), if_neg headBelow.ne',
        inductionHypothesis othersBelow, List.cons_append]

end TextMap

namespace Profile

/-- Entries in ascending order are put into a map one after the other. -/
theorem decodeTexts_map
    {map whole : TextMap}
    {entries : List (String × String)}
    (parts : map.entries ++ entries = whole.entries) :
    Json.decodeTexts map (entries.map fun entry => (.ok entry.1, .text entry.2)) =
      .ok whole := by
  induction entries generalizing map with
  | nil =>
      rw [List.append_nil] at parts
      exact congrArg Except.ok (TextMap.eq_of_entries_eq parts)
  | cons entry entries inductionHypothesis =>
      have sorted := whole.sorted
      rw [← parts] at sorted
      have above : ∀ other ∈ map.entries, other.1 < entry.1 :=
        fun other member => (List.pairwise_append.mp sorted).2.2 other member entry List.mem_cons_self
      simp only [List.map_cons, Json.decodeTexts, Json.asText_text]
      have inserted : (map.insert entry.1 entry.2).entries = map.entries ++ [entry] :=
        TextMap.insertEntry_of_above above entry.2
      apply inductionHypothesis
      rw [inserted, List.append_assoc, List.singleton_append, parts]

/-- A table of texts is read back from its members. -/
theorem asTextMap_textsToJson (map : TextMap) :
    (textsToJson map).asTextMap = .ok map := by
  rw [textsToJson, Json.record, Json.asTextMap, List.map_map]
  exact decodeTexts_map rfl

/-- Whatever the texts of a table are, they can be read back. -/
theorem readable_textsToJson (map : TextMap) :
    (textsToJson map).Readable := by
  rw [textsToJson, Json.record, Json.Readable]
  induction map.entries with
  | nil => exact trivial
  | cons entry entries inductionHypothesis => exact ⟨trivial, inductionHypothesis⟩

/-! ## Whole profiles -/

/-- A header is read back from its members. -/
theorem headerOfJson_record (kind command workload : String) (units : TextMap) :
    headerOfJson (.record
      [ ("type", .text kind), ("units", textsToJson units), ("cmd", .text command),
        ("workload", .text workload) ]) = .ok ⟨kind, units, command, workload⟩ := by
  have filled : (Json.record
      [ ("type", .text kind), ("units", textsToJson units), ("cmd", .text command),
        ("workload", .text workload) ]).fillFields ["type", "units", "cmd", "workload"]
        HeaderDraft.fill ⟨none, none, none, none⟩ =
          .ok ⟨some kind, some units, some command, some workload⟩ := by
    rw [Json.record, Json.fillFields]
    simp [Json.fillMembers, HeaderDraft.fill, asTextMap_textsToJson]
  rw [headerOfJson, filled]
  rfl

/-- What is said of the collector is read back from its members. -/
theorem collectorOfJson_record (name : String) (parameters : TextMap) :
    collectorOfJson (.record [("name", .text name), ("params", textsToJson parameters)]) =
      .ok ⟨name, parameters⟩ := by
  have filled : (Json.record [("name", .text name), ("params", textsToJson parameters)]).fillFields
      ["name", "params"] CollectorDraft.fill ⟨none, none⟩ = .ok ⟨some name, some parameters⟩ := by
    rw [Json.record, Json.fillFields]
    simp [Json.fillMembers, CollectorDraft.fill, asTextMap_textsToJson]
  rw [collectorOfJson, filled]
  rfl

/-- A profile is read back from its members if the calls of its resources fit. -/
theorem ofJson_toJson
    {profile : Profile Float}
    (fits : ∀ resource ∈ profile.resources, resource.calls < Numeral.wordLimit 64) :
    ofJson profile.toJson = .ok profile := by
  have resources : Json.asList Resource.ofJson (.array (profile.resources.map Resource.toJson)) =
      .ok profile.resources :=
    Json.asList_map fun resource member => Resource.ofJson_toJson (fits resource member)
  have filled : profile.toJson.fillFields
      ["version", "header", "collector_info", "generated_at", "resources"] Draft.fill
      ⟨none, none, none, none, none⟩ =
        .ok ⟨some profile.version,
          some ⟨profile.kind, profile.units, profile.command, profile.workload⟩,
          some ⟨profile.collector, profile.parameters⟩, some profile.generatedAt,
          some profile.resources⟩ := by
    rw [toJson, Json.record, Json.fillFields]
    simp [Json.fillMembers, Draft.fill, headerOfJson_record, collectorOfJson_record, resources]
  rw [ofJson, filled]
  rfl

/-- A profile can be read back from its text if calls fit and amounts read back. -/
theorem readable_toJson
    {profile : Profile Float}
    (fits : ∀ resource ∈ profile.resources, resource.calls < Numeral.wordLimit 64)
    (back : ∀ resource ∈ profile.resources, Json.ReadsBack resource.amount) :
    profile.toJson.Readable := by
  refine ⟨trivial, ⟨trivial, readable_textsToJson _, trivial, trivial, trivial⟩,
    ⟨trivial, readable_textsToJson _, trivial⟩, trivial, ?_, trivial⟩
  refine Json.readableItems_iff.mpr fun item member => ?_
  obtain ⟨resource, isResource, rfl⟩ := List.mem_map.mp member
  exact Resource.readable_toJson (fits resource isResource) (back resource isResource)

/-- A profile is read back from its text as it was written, whatever its texts, maps, rows
and whole numbers, if its amounts read back. -/
theorem read_write
    (profile : Profile Float)
    (fits : ∀ resource ∈ profile.resources, resource.calls < Numeral.wordLimit 64)
    (back : ∀ resource ∈ profile.resources, Json.ReadsBack resource.amount) :
    read profile.write.toUTF8 = .ok profile :=
  Json.decode_write (readable_toJson fits back) (ofJson_toJson fits)

/-- A profile with quotes, backslashes, control characters and characters beyond ASCII in
its texts, greatest whole numbers, and a resource without callers beside one with some. -/
def crowdedProfile : Profile Float where
  version := "1.0.0"
  kind := "time \"wall\""
  units := TextMap.ofList [("time", "s"), ("memory\n", "MiB\t"), ("", "")]
  command := "C:\\tools\\run \u0001\u001f"
  workload := "naïve 路径 🔥"
  collector := "python"
  parameters := TextMap.empty
  generatedAt := "2024-01-01T00:00:00+00:00"
  resources :=
    [ { amount := 0.5
        location := ⟨"a \"b\".py", "f", 4294967295⟩
        thread := "1"
        kind := "time"
        calls := 18446744073709551615
        trace := []
        exceptions := [] },
      { amount := 1e-9
        location := ⟨"", "λ\u0000", 0⟩
        thread := "worker\\2"
        kind := "time"
        calls := 0
        trace := [⟨"a.py", "f", 1⟩, ⟨"dir/b.py", "\r\n", 7⟩]
        exceptions := ["ValueError: \"bad\"", ""] } ]

theorem read_write_crowdedProfile :
    read crowdedProfile.write.toUTF8 = .ok crowdedProfile :=
  read_write crowdedProfile (by decide +kernel) (by decide +kernel)

end Profile

end FlameProfile
