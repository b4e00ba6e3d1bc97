import FlameProfile.Workspace

/-!
# Sessions

A task works in a session: it reads and writes the files of a workspace, shows
lines on the terminal and warns of what is odd. A task that fails leaves behind
what it has done so far.
-/

namespace FlameProfile

/-- What a task works in. -/
structure Session where
  workspace : Workspace
  /-- Whether the terminal shows colours. -/
  coloured : Bool
  /-- The time, as a document notes it. -/
  now : String
  /-- What has been shown on the terminal. -/
  output : String
  /-- What has been warned of, latest last. -/
  warnings : List String

/-- A piece of work that can fail. -/
abbrev Task (Fault Value : Type) := ExceptT Fault (StateM Session) Value

namespace Task

variable {Fault Value : Type}

/-- Take over a result. -/
def ofResult (result : Except Fault Value) : Task Fault Value :=
  ExceptT.mk (pure result)

/-- Say with which larger fault a task fails. -/
def failingWith
    {Larger : Type}
    (task : Task Fault Value)
    (enlarge : Fault -> Larger) : Task Larger Value :=
  ExceptT.adapt enlarge task

/-- Show a line on the terminal. -/
def say (line : String) : Task Fault Unit :=
  modify fun session => { session with output := session.output ++ line ++ "\n" }

/-- Warn of something. -/
def warn (warning : String) : Task Fault Unit :=
  modify fun session => { session with warnings := session.warnings ++ [warning] }

/-- The files and directories as they are. -/
def workspace : Task Fault Workspace := do
  return (← get).workspace

/-- Change the files and directories. -/
def setWorkspace (workspace : Workspace) : Task Fault Unit :=
  modify fun session => { session with workspace := workspace }

end Task
end FlameProfile
