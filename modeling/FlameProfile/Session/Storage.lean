import FlameProfile.Drawing.Configuration
import FlameProfile.Event.Log
import FlameProfile.Profile.Document
import FlameProfile.Session

/-!
# Logs, profiles, pictures and settings in files

Before something is written its path is checked, and the directories that are
missing on the way are created. A profile of another version is read all the
same, with a warning.
-/

namespace FlameProfile

/-- Why nothing can be written to a path. -/
inductive PathFault
  | empty
  | directory (path : String)
  | uncreatable (path : String) (fault : FileFault)
  deriving DecidableEq

/-- Wording of a fault. -/
def PathFault.message (fault : PathFault) : String :=
  "Invalid output path: " ++
    match fault with
    | .empty => "Path is empty"
    | .directory path => s!"Path is a directory: {path}"
    | .uncreatable path fault => s!"Cannot create directory {path}: {fault.message}"

/-- Why a profile or a picture cannot be read or written. -/
inductive StorageFault
  | path (fault : PathFault)
  | file (fault : FileFault)
  | document (fault : Json.Fault)
  deriving DecidableEq

/-- Wordings of a fault and of what lies behind it. -/
def StorageFault.chain : StorageFault -> List String
  | .path fault => [fault.message]
  | .file fault => [s!"Failed to write file: {fault.message}", fault.message]
  | .document fault => [s!"Failed to serialize JSON: {fault.category}"]

/-- Why a log cannot be had. -/
inductive LogFault
  | unreadable (fault : FileFault)
  | malformed (fault : MalformedEvent)
  deriving DecidableEq

/-- Wordings of a fault and of what lies behind it. -/
def LogFault.chain : LogFault -> List String
  | .unreadable fault => [s!"Failed to read event log: {fault.message}", fault.message]
  | .malformed fault => [fault.message]

/-- Why a settings file cannot be used. -/
inductive SettingsFault
  | unreadable (fault : FileFault)
  | unusable (fault : ConfigurationFault)
  deriving DecidableEq

/-- Wordings of a fault and of what lies behind it. -/
def SettingsFault.chain : SettingsFault -> List String
  | .unreadable fault => [s!"Failed to read config file: {fault.message}", fault.message]
  | .unusable .malformed => ["Config TOML parse error"]
  | .unusable (.invalid fault) => [fault.message]

namespace Storage

/-- Refuse a path that cannot be a file. -/
def checkPath
    (workspace : Workspace)
    (path : String) : Except PathFault Unit :=
  if path = "" then
    .error .empty
  else if workspace.isDirectory path then
    .error (.directory path)
  else
    .ok ()

/-- Create the directory that a file goes into, unless something is there. -/
def prepareDirectory (path : String) : Task PathFault Unit := do
  let directory := Path.directory path
  let workspace ← Task.workspace
  match workspace.lookup (Path.write directory) with
  | .ok _ => pure ()
  | .error _ =>
      let (result, extended) := workspace.createDirectories directory.reverse
      Task.setWorkspace extended
      (Task.ofResult result).failingWith (PathFault.uncreatable (Path.write directory))

/-- Write a file without more ado. -/
def writeFile
    (path text : String) : Task FileFault Unit := do
  Task.setWorkspace (← Task.ofResult ((← Task.workspace).write path text.toUTF8))

/-- Write a file, in a directory that is created if need be. -/
def writePrepared
    (path text : String) : Task StorageFault Unit := do
  (Task.ofResult (checkPath (← Task.workspace) path)).failingWith .path
  (prepareDirectory path).failingWith .path
  (writeFile path text).failingWith .file

/-- Write a profile. -/
def writeProfile
    (path : String)
    (profile : Profile Float) : Task StorageFault Unit :=
  writePrepared path profile.write

/-- Write the document of a picture. -/
def writePicture
    (path document : String) : Task StorageFault Unit :=
  writePrepared path document

/-- Read a profile. A directory can be opened, but there is nothing to read. -/
def readProfile (path : String) : Task StorageFault (Profile Float) := do
  let content ←
    match (← Task.workspace).read path with
    | .ok content => pure content
    | .error .directory => throw (.document .unreadable)
    | .error fault => throw (.file fault)
  let profile ← (Task.ofResult (Profile.read content)).failingWith .document
  if profile.version ≠ Profile.schemaVersion then
    Task.warn
      s!"Profile {path} has schema version {profile.version}, expected {Profile.schemaVersion}"
  return profile

/-- Read a file that holds a text. -/
def readText
    (workspace : Workspace)
    (path : String) : Except FileFault String :=
  match workspace.read path with
  | .error fault => .error fault
  | .ok content =>
      match (Text.symbols content).mapM id with
      | none => .error .notText
      | some text => .ok (String.ofList text)

/-- Read the events of a log. -/
def readLog (path : String) : Task LogFault (List (Event Float)) := do
  let text ← (Task.ofResult (readText (← Task.workspace) path)).failingWith .unreadable
  (Task.ofResult (EventLog.read text)).failingWith .malformed

/-- Read drawing options from a settings file. -/
def readOptions (path : String) : Task SettingsFault (DrawingOptions Float) := do
  let text ← (Task.ofResult (readText (← Task.workspace) path)).failingWith .unreadable
  (Task.ofResult (Configuration.read text)).failingWith .unusable

end Storage
end FlameProfile
