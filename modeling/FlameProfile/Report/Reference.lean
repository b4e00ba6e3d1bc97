import FlameProfile.Event.Kind
import FlameProfile.Profile

/-!
# Reference texts

What the program says of itself and of the documents it reads and writes.
-/

namespace FlameProfile
namespace Reference

/-- Name of the program. -/
def programName : String := "tracefold"

/-- Version of the program. -/
def programVersion : String := "0.1.0"

/-- Lines on the version of the program. -/
def version : List String :=
  [ s!"Tracefold v{programVersion}"
  , s!"Profile Schema: v{Profile.schemaVersion}"
  , ""
  , "Call-stack reconstruction and flamegraphs for function-level event traces." ]

/-- Lines on the form of logs and profiles. -/
def details : List String :=
  [ "Event Log (input, one event per line):"
  , "  kind,source:function:line:thread_id,timestamp[,exception]"
  , "  kinds: " ++ String.intercalate ", " (EventKind.all.map EventKind.token)
  , ""
  , "Schema Structure:"
  , "  version: string          - Schema version (e.g., '1.0.0')"
  , "  header: object           - What was measured"
  , "    type: string           - Resource type ('time')"
  , "    units: object          - Unit per resource type"
  , "    cmd: string            - Profiled command"
  , "    workload: string       - Workload of the command"
  , "  collector_info: object   - Collector name and parameters"
  , "  generated_at: string     - ISO 8601 timestamp"
  , "  resources: array         - One record per completed call"
  , "    amount: number         - Exclusive time"
  , "    uid: object            - source, function, line"
  , "    tid: string            - Thread id"
  , "    type: string           - Resource type"
  , "    ncalls: number         - Calls of the function name"
  , "    trace: array           - Callers on the stack, oldest first"
  , "    exceptions: array      - Exceptions raised in the call" ]

/-- Lines on the version of profiles, and on their form if it is asked for. -/
def schema (detailed : Bool) : List String :=
  ["Tracefold Profile Schema", s!"Current Version: {Profile.schemaVersion}", ""] ++
    if detailed then details else ["Use --show for detailed schema information"]

end Reference
end FlameProfile
