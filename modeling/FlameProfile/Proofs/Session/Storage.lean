import Mathlib
import FlameProfile.Proofs.Session.Task
import FlameProfile.Proofs.Text.Symbols
import FlameProfile.Proofs.Workspace
import FlameProfile.Session.Storage

/-!
# Reading and writing in a session

A file that is written in a session is read back, and files at other places are as they
were, whatever directories had to be created on the way. Reading changes no file.
-/

namespace FlameProfile
namespace Storage

variable {session : Session} {path text : String}

/-! ## Writing -/

/-- A file has been written, and every file at another place is as it was. -/
structure Wrote
    (path text : String)
    (before after : Workspace) : Prop where
  read : after.read path = .ok text.toUTF8
  kept : ∀ {other : String} {content : ByteArray},
    before.read other = .ok content →
    after.locate (Path.names path) ≠ after.locate (Path.names other) →
    after.read other = .ok content

/-- Preparing a directory leaves all that stands. -/
theorem ensures_prepareDirectory (path : String) :
    (prepareDirectory path).Ensures session
      (fun _ after => session.workspace.Extends after.workspace) fun _ => True := by
  rw [prepareDirectory, Task.ensures_bind, Task.ensures_workspace]
  split
  next => exact (Task.ensures_pure ()).mpr (Workspace.extends_self _)
  next =>
    rw [Task.ensures_bind, Task.ensures_setWorkspace, Task.ensures_failingWith,
      Task.ensures_ofResult]
    split
    next => exact Workspace.extends_createDirectories _ _
    next => trivial

theorem ensures_writeFile (path text : String) :
    (writeFile path text).Ensures session
      (fun _ after => session.workspace.write path text.toUTF8 = .ok after.workspace)
      fun _ => True := by
  rw [writeFile, Task.ensures_bind, Task.ensures_workspace, Task.ensures_bind,
    Task.ensures_ofResult]
  split
  next isWritten => exact (Task.ensures_setWorkspace _).mpr isWritten
  next => trivial

/-- A file that is written is read back, and no other file changes. -/
theorem ensures_writePrepared (path text : String) :
    (writePrepared path text).Ensures session
      (fun _ after => Wrote path text session.workspace after.workspace) fun _ => True := by
  rw [writePrepared, Task.ensures_bind, Task.ensures_workspace, Task.ensures_bind,
    Task.ensures_failingWith, Task.ensures_ofResult]
  split
  next =>
    rw [Task.ensures_bind, Task.ensures_failingWith]
    refine (ensures_prepareDirectory path).imp (fun _ prepared grows => ?_) fun _ _ => trivial
    rw [Task.ensures_failingWith]
    refine (ensures_writeFile path text).imp (fun _ after isWritten => ?_) fun _ _ => trivial
    exact ⟨Workspace.read_of_write isWritten, fun isRead =>
      Workspace.read_other_of_write isWritten (grows.read isRead)⟩
  next => trivial

/-! ## Plain file names -/

theorem checkPath_plain
    {workspace : Workspace}
    (plain : Path.IsPlain path)
    (free : workspace.find? [path] ≠ some .directory) :
    checkPath workspace path = .ok () := by
  have named := (Workspace.exists_of_write_eq_ok (Workspace.write_plain plain free .empty)).1
  have elsewhere : workspace.isDirectory path = false := by
    simp only [Workspace.isDirectory, Workspace.leadsToDirectory, workspace.locate_plain plain,
      Bool.and_false]
  rw [checkPath, if_neg named, elsewhere, if_neg Bool.false_ne_true]

/-- The working directory is there. -/
theorem ensures_prepareDirectory_plain
    {done : Unit -> Session -> Prop}
    {failed : PathFault -> Prop}
    (plain : Path.IsPlain path)
    (ended : done () session) :
    (prepareDirectory path).Ensures session done failed := by
  have stays : Path.trim [path] = [path] := by simp [Path.trim, plain.2.1]
  have here : Path.directory path = [] := by
    rw [Path.directory, plain.1, stays]
    rfl
  have nameless : session.workspace.lookup (Path.write []) = .error .missing := rfl
  rw [prepareDirectory, here, Task.ensures_bind, Task.ensures_workspace]
  simp only [nameless]
  rw [Task.ensures_bind, Task.ensures_setWorkspace, Task.ensures_failingWith, Task.ensures_ofResult]
  exact ended

/-- A file with a plain name is written wherever no directory has the name. -/
theorem ensures_writePrepared_plain
    (plain : Path.IsPlain path)
    (free : session.workspace.find? [path] ≠ some .directory)
    (text : String) :
    (writePrepared path text).Ensures session
      (fun _ after =>
        Wrote path text session.workspace after.workspace ∧
        ∀ place, session.workspace.find? place ≠ some .directory →
          after.workspace.find? place ≠ some .directory)
      fun _ => False := by
  have isWritten := Workspace.write_plain plain free text.toUTF8
  rw [writePrepared, Task.ensures_bind, Task.ensures_workspace, Task.ensures_bind,
    Task.ensures_failingWith, Task.ensures_ofResult, checkPath_plain plain free]
  simp only
  rw [Task.ensures_bind, Task.ensures_failingWith]
  apply ensures_prepareDirectory_plain plain
  rw [Task.ensures_failingWith, writeFile, Task.ensures_bind, Task.ensures_workspace,
    Task.ensures_bind, Task.ensures_ofResult, isWritten]
  refine (Task.ensures_setWorkspace _).mpr ⟨?_, fun place notDirectory => ?_⟩
  · exact ⟨Workspace.read_of_write isWritten, Workspace.read_other_of_write isWritten⟩
  · exact Workspace.find?_put_file_ne_directory notDirectory

/-! ## Reading -/

theorem readText_of_read
    {workspace : Workspace}
    (isRead : workspace.read path = .ok text.toUTF8) :
    readText workspace path = .ok text := by
  have symbols : (Text.symbols text.toUTF8).mapM id = some text.toList := by
    rw [Text.symbols_toUTF8]
    induction text.toList with
    | nil => rfl
    | cons character rest inductionHypothesis =>
        rw [List.map_cons, List.mapM_cons, inductionHypothesis]
        rfl
  simp only [readText, isRead, symbols, String.ofList_toList]

/-- The events of a log are had where its text is accepted. -/
theorem ensures_readLog
    {events : List (Event Float)}
    {done : List (Event Float) -> Session -> Prop}
    {failed : LogFault -> Prop}
    (isRead : session.workspace.read path = .ok text.toUTF8)
    (accepted : EventLog.read text = .ok events) :
    (readLog path).Ensures session done failed ↔ done events session := by
  rw [readLog, Task.ensures_bind, Task.ensures_workspace, Task.ensures_bind,
    Task.ensures_failingWith, Task.ensures_ofResult, readText_of_read isRead]
  simp only
  rw [Task.ensures_failingWith, Task.ensures_ofResult, accepted]

/-- A profile is had where its text is accepted, and no file changes. -/
theorem ensures_readProfile
    {profile : Profile Float}
    {content : ByteArray}
    {done : Profile Float -> Session -> Prop}
    {failed : StorageFault -> Prop}
    (isRead : session.workspace.read path = .ok content)
    (accepted : Profile.read content = .ok profile)
    (read : ∀ after, after.workspace = session.workspace → done profile after) :
    (readProfile path).Ensures session done failed := by
  rw [readProfile, Task.ensures_bind, Task.ensures_workspace, isRead]
  simp only [Task.ensures_bind, Task.ensures_pure, Task.ensures_failingWith, Task.ensures_ofResult,
    accepted]
  split
  next =>
    rw [Task.ensures_bind, Task.ensures_warn, Task.ensures_pure]
    exact read _ rfl
  next => exact (Task.ensures_pure profile).mpr (read _ rfl)

end Storage
end FlameProfile
