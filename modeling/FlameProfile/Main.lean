import Std.Time.DateTime.Timestamp
import FlameProfile.CommandLine.Program
import FlameProfile.Moment

/-!
# Command line

The files and directories that the arguments name are taken into a workspace,
the program runs on it, and what has changed is written back.
-/

namespace FlameProfile
namespace CommandLine

/-- What stands at a path. -/
def entryAt (path : String) : IO (Option Entry) := do
  try
    let found ← IO.FS.realPath path
    if ← found.isDir then
      return some .directory
    else if ← found.pathExists then
      return some (.file (← IO.FS.readBinFile found))
    else
      return none
  catch _ => return none

/-- The files and directories on the way along paths. -/
def snapshot (paths : List String) : IO Workspace := do
  let mut workspace : Workspace := ⟨[]⟩
  for path in paths do
    for (place, walked) in Path.visited (Path.names path) do
      if let some entry ← entryAt walked then
        workspace := workspace.put place entry
  return workspace

/-- Write back what a program has changed. -/
def commit
    (before after : Workspace) : IO Unit := do
  for (place, entry) in after.entries do
    match before.find? place, entry with
    | some (.file old), .file new =>
        if old.data ≠ new.data then
          IO.FS.writeBinFile (Path.ofPlace place) new
    | none, .file new => IO.FS.writeBinFile (Path.ofPlace place) new
    | none, .directory => IO.FS.createDir (Path.ofPlace place)
    | some _, _ => pure ()

/-- The session of a run in the surroundings of the process. -/
def surroundings (arguments : List String) : IO Session := do
  let paths :=
    match Invocation.read arguments with
    | .ok invocation => invocation.paths
    | .error _ => []
  let now ← Std.Time.Timestamp.now
  return {
    workspace := ← snapshot paths
    coloured :=
      isColoured (← (← IO.getStdout).isTty) (← IO.getEnv "CLICOLOR_FORCE")
        (← IO.getEnv "NO_COLOR") (← IO.getEnv "CLICOLOR")
    now := Moment.write now.toNanosecondsSinceUnixEpoch.val.toNat
    output := ""
    warnings := [] }

/-- Run the program in the surroundings of the process. -/
def runProcess (arguments : List String) : IO UInt32 := do
  let session ← surroundings arguments
  let (outcome, after) := run arguments session
  for warning in after.warnings do
    IO.eprintln warning
  commit session.workspace after.workspace
  IO.print after.output
  if outcome.code ≠ 0 then
    IO.eprintln outcome.report
  return outcome.code.toUInt32

end CommandLine
end FlameProfile

/-- Run the program on the arguments of the process. -/
def main (arguments : List String) : IO UInt32 :=
  FlameProfile.CommandLine.runProcess arguments
