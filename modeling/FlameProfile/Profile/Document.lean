import FlameProfile.Json.Decoder
import FlameProfile.Json.Writer
import FlameProfile.Profile
import FlameProfile.Text.Symbols

/-!
# Profile documents

A profile is kept as a document. Writing names every field; reading needs all
of them but the command, the workload, the parameters, the trace and the
exceptions, which are empty when they are missing.
-/

namespace FlameProfile

/-! ## Locations -/

namespace Location

/-- Document of a location. -/
def toJson (location : Location) : Json :=
  .record
    [ ("source", .text location.source)
    , ("function", .text location.function)
    , ("line", .natural location.line.toNat) ]

/-- The fields of a location that have been read. -/
structure Draft where
  source : Option String
  function : Option String
  line : Option Nat

/-- Read a field of a location. -/
def Draft.fill
    (draft : Draft)
    (name : String)
    (value : Json) : Except Json.Fault Draft :=
  match name with
  | "source" => do return { draft with source := ← Json.fillOnce draft.source value.asText }
  | "function" => do return { draft with function := ← Json.fillOnce draft.function value.asText }
  | "line" => do
      return { draft with
        line := ← Json.fillOnce draft.line (value.asNatural (Numeral.wordLimit 32)) }
  | _ => .ok draft

/-- Take the document of a location apart. -/
def ofJson (json : Json) : Except Json.Fault Location := do
  let draft ← json.fillFields ["source", "function", "line"] Draft.fill ⟨none, none, none⟩
  let source ← Json.required draft.source
  let function ← Json.required draft.function
  let line ← Json.required draft.line
  return ⟨source, function, UInt32.ofNat line⟩

end Location

/-! ## Resources -/

namespace Resource

/-- Document of a resource. -/
def toJson (resource : Resource Float) : Json :=
  .record
    [ ("amount", .number resource.amount)
    , ("uid", resource.location.toJson)
    , ("tid", .text resource.thread)
    , ("type", .text resource.kind)
    , ("ncalls", .natural resource.calls)
    , ("trace", .array (resource.trace.map Location.toJson))
    , ("exceptions", .array (resource.exceptions.map Json.text)) ]

/-- The fields of a resource that have been read. -/
structure Draft where
  amount : Option Float
  location : Option Location
  thread : Option String
  kind : Option String
  calls : Option Nat
  trace : Option (List Location)
  exceptions : Option (List String)

/-- Read a field of a resource. -/
def Draft.fill
    (draft : Draft)
    (name : String)
    (value : Json) : Except Json.Fault Draft :=
  match name with
  | "amount" => do return { draft with amount := ← Json.fillOnce draft.amount value.asNumber }
  | "uid" => do
      return { draft with location := ← Json.fillOnce draft.location (Location.ofJson value) }
  | "tid" => do return { draft with thread := ← Json.fillOnce draft.thread value.asText }
  | "type" => do return { draft with kind := ← Json.fillOnce draft.kind value.asText }
  | "ncalls" => do
      return { draft with
        calls := ← Json.fillOnce draft.calls (value.asNatural (Numeral.wordLimit 64)) }
  | "trace" => do
      return { draft with trace := ← Json.fillOnce draft.trace (value.asList Location.ofJson) }
  | "exceptions" => do
      return { draft with
        exceptions := ← Json.fillOnce draft.exceptions (value.asList Json.asText) }
  | _ => .ok draft

/-- Take the document of a resource apart. -/
def ofJson (json : Json) : Except Json.Fault (Resource Float) := do
  let draft ←
    json.fillFields ["amount", "uid", "tid", "type", "ncalls", "trace", "exceptions"] Draft.fill
      ⟨none, none, none, none, none, none, none⟩
  let amount ← Json.required draft.amount
  let location ← Json.required draft.location
  let thread ← Json.required draft.thread
  let kind ← Json.required draft.kind
  let calls ← Json.required draft.calls
  .ok
    { amount := amount
      location := location
      thread := thread
      kind := kind
      calls := calls
      trace := draft.trace.getD []
      exceptions := draft.exceptions.getD [] }

end Resource

/-! ## Headers and collectors -/

namespace Profile

/-- Document of a map of texts. -/
def textsToJson (map : TextMap) : Json :=
  .record (map.entries.map fun entry => (entry.1, .text entry.2))

/-- What the header of a profile says. -/
structure Header where
  kind : String
  units : TextMap
  command : String
  workload : String

/-- The fields of a header that have been read. -/
structure HeaderDraft where
  kind : Option String
  units : Option TextMap
  command : Option String
  workload : Option String

/-- Read a field of a header. -/
def HeaderDraft.fill
    (draft : HeaderDraft)
    (name : String)
    (value : Json) : Except Json.Fault HeaderDraft :=
  match name with
  | "type" => do return { draft with kind := ← Json.fillOnce draft.kind value.asText }
  | "units" => do return { draft with units := ← Json.fillOnce draft.units value.asTextMap }
  | "cmd" => do return { draft with command := ← Json.fillOnce draft.command value.asText }
  | "workload" => do return { draft with workload := ← Json.fillOnce draft.workload value.asText }
  | _ => .ok draft

/-- Take the document of a header apart. -/
def headerOfJson (json : Json) : Except Json.Fault Header := do
  let draft ←
    json.fillFields ["type", "units", "cmd", "workload"] HeaderDraft.fill
      ⟨none, none, none, none⟩
  let kind ← Json.required draft.kind
  let units ← Json.required draft.units
  return ⟨kind, units, draft.command.getD "", draft.workload.getD ""⟩

/-- What is said about the collector of a profile. -/
structure Collector where
  name : String
  parameters : TextMap

/-- The fields of a collector that have been read. -/
structure CollectorDraft where
  name : Option String
  parameters : Option TextMap

/-- Read a field of a collector. -/
def CollectorDraft.fill
    (draft : CollectorDraft)
    (name : String)
    (value : Json) : Except Json.Fault CollectorDraft :=
  match name with
  | "name" => do return { draft with name := ← Json.fillOnce draft.name value.asText }
  | "params" => do
      return { draft with parameters := ← Json.fillOnce draft.parameters value.asTextMap }
  | _ => .ok draft

/-- Take the document of a collector apart. -/
def collectorOfJson (json : Json) : Except Json.Fault Collector := do
  let draft ← json.fillFields ["name", "params"] CollectorDraft.fill ⟨none, none⟩
  let name ← Json.required draft.name
  return ⟨name, draft.parameters.getD TextMap.empty⟩

/-! ## Profiles -/

/-- Document of a profile. -/
def toJson (profile : Profile Float) : Json :=
  .record
    [ ("version", .text profile.version)
    , ("header",
        .record
          [ ("type", .text profile.kind)
          , ("units", textsToJson profile.units)
          , ("cmd", .text profile.command)
          , ("workload", .text profile.workload) ])
    , ("collector_info",
        .record
          [ ("name", .text profile.collector)
          , ("params", textsToJson profile.parameters) ])
    , ("generated_at", .text profile.generatedAt)
    , ("resources", .array (profile.resources.map Resource.toJson)) ]

/-- The fields of a profile that have been read. -/
structure Draft where
  version : Option String
  header : Option Header
  collector : Option Collector
  generatedAt : Option String
  resources : Option (List (Resource Float))

/-- Read a field of a profile. -/
def Draft.fill
    (draft : Draft)
    (name : String)
    (value : Json) : Except Json.Fault Draft :=
  match name with
  | "version" => do return { draft with version := ← Json.fillOnce draft.version value.asText }
  | "header" => do
      return { draft with header := ← Json.fillOnce draft.header (headerOfJson value) }
  | "collector_info" => do
      return { draft with collector := ← Json.fillOnce draft.collector (collectorOfJson value) }
  | "generated_at" => do
      return { draft with generatedAt := ← Json.fillOnce draft.generatedAt value.asText }
  | "resources" => do
      return { draft with
        resources := ← Json.fillOnce draft.resources (value.asList Resource.ofJson) }
  | _ => .ok draft

/-- Take the document of a profile apart. -/
def ofJson (json : Json) : Except Json.Fault (Profile Float) := do
  let draft ←
    json.fillFields ["version", "header", "collector_info", "generated_at", "resources"] Draft.fill
      ⟨none, none, none, none, none⟩
  let version ← Json.required draft.version
  let header ← Json.required draft.header
  let collector ← Json.required draft.collector
  let generatedAt ← Json.required draft.generatedAt
  let resources ← Json.required draft.resources
  .ok
    { version := version
      kind := header.kind
      units := header.units
      command := header.command
      workload := header.workload
      collector := collector.name
      parameters := collector.parameters
      generatedAt := generatedAt
      resources := resources }

/-- Text of a profile. -/
def write (profile : Profile Float) : String :=
  profile.toJson.write

/-- Read the profile in a file. -/
def read (content : ByteArray) : Except Json.Fault (Profile Float) :=
  Json.decode ofJson (Text.symbols content)

end Profile
end FlameProfile
