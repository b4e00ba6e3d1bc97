import FlameProfile.FirstSeen
import FlameProfile.Text.Fields

/-!
# Files and directories

A workspace is what commands read from and write to: files and directories at
their places. A place is the row of names that leads to it from the working
directory, or from the root if it begins with a slash. A path is a text that
is walked name by name, so that every place on the way has to be a directory.
-/

namespace FlameProfile

/-- Names that lead to a file or directory, none of them to be walked back. -/
abbrev Place := List String

/-- What stands at a place. -/
inductive Entry
  | file (content : ByteArray)
  | directory

/-- Why a file or directory cannot be used. -/
inductive FileFault
  | missing
  | occupied
  | notDirectory
  | directory
  | notText
  deriving DecidableEq

/-- Wording of a fault, as the system reports it. -/
def FileFault.message : FileFault -> String
  | .missing => "No such file or directory (os error 2)"
  | .occupied => "File exists (os error 17)"
  | .notDirectory => "Not a directory (os error 20)"
  | .directory => "Is a directory (os error 21)"
  | .notText => "stream did not contain valid UTF-8"

/-- Files and directories at their places. -/
structure Workspace where
  entries : FirstSeen Place Entry

namespace Path

/-- The names of a path. One that is empty, or a point, leads nowhere else. -/
def names (path : String) : List String :=
  (Text.pieces '/' path.toList).map String.ofList

/-- Whether a name stays where it is. -/
def stays (name : String) : Bool :=
  name = "" || name = "."

/-- Names without those at the end that stay where they are. -/
def trim (names : List String) : List String :=
  (names.reverse.dropWhile stays).reverse

/-- The names of the directory that a path leads into before its last name. -/
def directory (path : String) : List String :=
  trim (trim (names path)).dropLast

/-- Text of names. -/
def write (names : List String) : String :=
  String.intercalate "/" names

/-- A path to a place. -/
def ofPlace : Place -> String
  | "/" :: names => "/" ++ write names
  | names => write names

/-- Where a path begins, and the names to walk from there. -/
def start : List String -> Place × List String
  | "" :: rest => (["/"], rest)
  | names => ([], names)

/-- The place that a name leads to. Nothing lies outside the root. -/
def step
    (place : Place)
    (name : String) : Place :=
  if stays name then
    place
  else if name = ".." then
    match place.getLast? with
    | none => [".."]
    | some ".." => place ++ [".."]
    | some "/" => place
    | some _ => place.dropLast
  else
    place ++ [name]

/-- The places that are visited on the way along names, each with the path that
has led to it. -/
def visited (names : List String) : List (Place × String) :=
  let beginnings := (List.range names.length).map fun count => names.take (count + 1)
  (beginnings.filter fun walked => write walked ≠ "").map fun walked =>
    ((start walked).2.foldl step (start walked).1, write walked)

end Path

namespace Workspace

/-- What stands at a place. The directories around the working directory are
always there. -/
def find?
    (workspace : Workspace)
    (place : Place) : Option Entry :=
  if place = ["/"] ∨ place.all (fun name => name = "..") = true then
    some .directory
  else
    FirstSeen.find? place workspace.entries

/-- Put an entry at a place. -/
def put
    (workspace : Workspace)
    (place : Place)
    (entry : Entry) : Workspace :=
  ⟨FirstSeen.record place entry (fun _ => entry) workspace.entries⟩

/-- What is put at a place stands there. -/
theorem find?_put_same
    (workspace : Workspace)
    {place : Place}
    (entry : Entry)
    (notRoot : place ≠ ["/"])
    (inside : place.all (fun name => name = "..") = false) :
    (workspace.put place entry).find? place = some entry := by
  simp only [find?, notRoot, inside, Bool.false_eq_true, or_self, if_false, put]
  cases found : FirstSeen.find? place workspace.entries <;>
    simp [FirstSeen.find?_record_same, found]

/-- What is put at a place leaves every other place as it was. -/
theorem find?_put_other
    (workspace : Workspace)
    {place other : Place}
    (entry : Entry)
    (different : other ≠ place) :
    (workspace.put place entry).find? other = workspace.find? other := by
  simp only [find?, put, FirstSeen.find?_record_other different]

/-! ## Paths -/

/-- Walk names from a place. Each place that is left has to be a directory. -/
def walk (workspace : Workspace) : Place -> List String -> Except FileFault Place
  | place, [] => .ok place
  | place, name :: rest =>
      match workspace.find? place with
      | none => .error .missing
      | some (.file _) => .error .notDirectory
      | some .directory => walk workspace (Path.step place name) rest

/-- The place that names lead to, whether or not anything stands there. -/
def locate
    (workspace : Workspace)
    (names : List String) : Except FileFault Place :=
  workspace.walk (Path.start names).1 (Path.start names).2

/-- What stands where a path leads. -/
def lookup
    (workspace : Workspace)
    (path : String) : Except FileFault Entry :=
  if path = "" then
    .error .missing
  else
    match workspace.locate (Path.names path) with
    | .error fault => .error fault
    | .ok place =>
        match workspace.find? place with
        | none => .error .missing
        | some entry => .ok entry

/-- Whether names lead to a directory. -/
def leadsToDirectory
    (workspace : Workspace)
    (names : List String) : Bool :=
  match workspace.locate names with
  | .error _ => false
  | .ok place =>
      match workspace.find? place with
      | some .directory => true
      | _ => false

/-- Whether a path leads to a directory. -/
def isDirectory
    (workspace : Workspace)
    (path : String) : Bool :=
  path ≠ "" && workspace.leadsToDirectory (Path.names path)

/-- Whether a path leads to a file. -/
def isFile
    (workspace : Workspace)
    (path : String) : Bool :=
  match workspace.lookup path with
  | .ok (.file _) => true
  | _ => false

/-! ## Files -/

/-- Content of the file that a path leads to. -/
def read
    (workspace : Workspace)
    (path : String) : Except FileFault ByteArray :=
  match workspace.lookup path with
  | .error fault => .error fault
  | .ok .directory => .error .directory
  | .ok (.file content) => .ok content

/-- Write a file; one that is there loses its content. A path that ends in a
slash can only lead to a directory. -/
def write
    (workspace : Workspace)
    (path : String)
    (content : ByteArray) : Except FileFault Workspace :=
  if path = "" then
    .error .missing
  else
    let names := Path.names path
    let name := (names.reverse.dropWhile fun name => name = "").reverse
    match workspace.locate name with
    | .error fault => .error fault
    | .ok place =>
        match workspace.find? place with
        | some .directory => .error .directory
        | _ =>
            if name = names then
              .ok (workspace.put place (.file content))
            else
              .error .directory

/-! ## Directories -/

/-- Create the directory that names lead to. -/
def createDirectory
    (workspace : Workspace)
    (names : List String) : Except FileFault Workspace :=
  match workspace.locate names with
  | .error fault => .error fault
  | .ok place =>
      match workspace.find? place with
      | some _ => .error .occupied
      | none => .ok (workspace.put place .directory)

/-- Create a directory unless it is there. -/
def ensureDirectory
    (workspace : Workspace)
    (names : List String) : Except FileFault Workspace :=
  match workspace.createDirectory names with
  | .ok extended => .ok extended
  | .error fault =>
      if workspace.leadsToDirectory names then .ok workspace else .error fault

/-- Create a directory, given by its names in reverse, and the directories that
are missing on the way to it. Those that are created stay even if a later one
cannot be. -/
def createDirectories
    (workspace : Workspace) : List String -> Except FileFault Unit × Workspace
  | [] => (.ok (), workspace)
  | name :: outer =>
      if Path.stays name then
        createDirectories workspace outer
      else
        match workspace.ensureDirectory (name :: outer).reverse with
        | .ok extended => (.ok (), extended)
        | .error .missing =>
            match createDirectories workspace outer with
            | (.error fault, extended) => (.error fault, extended)
            | (.ok (), extended) =>
                match extended.ensureDirectory (name :: outer).reverse with
                | .ok complete => (.ok (), complete)
                | .error fault => (.error fault, extended)
        | .error fault => (.error fault, workspace)

/-! ## Snapshots -/

/-- The workspace of files and directories. The directories on the way to an
entry come with it. -/
def ofEntries (entries : List (String × Entry)) : Workspace :=
  entries.foldl
    (fun workspace entry =>
      let names := Path.names entry.1
      let surrounded := (workspace.createDirectories (names.dropLast).reverse).2
      match surrounded.locate names with
      | .error _ => surrounded
      | .ok place => surrounded.put place entry.2)
    ⟨[]⟩

/-- The files, each with the path of its place. -/
def files (workspace : Workspace) : List (String × ByteArray) :=
  workspace.entries.filterMap fun entry =>
    match entry.2 with
    | .file content => some (Path.ofPlace entry.1, content)
    | .directory => none

end Workspace
end FlameProfile
