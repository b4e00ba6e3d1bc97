import FlameProfile.Report.Difference
import FlameProfile.Drawing.Picture
import FlameProfile.Session.Storage

/-!
# Failures of tasks

A task names the step that failed; behind it stands the reason. Both are shown,
the step first.
-/

namespace FlameProfile

/-- Why a task of the program fails. -/
inductive TaskFault
  | noLog
  | logMissing (path : String)
  | noRows
  | tooManyRows
  | options (fault : OptionFault Float)
  | settings (path : String) (fault : SettingsFault)
  | log (path : String) (fault : LogFault)
  | profileWrite (fault : StorageFault)
  | profileRead (path : String) (fault : StorageFault)
  | baselineRead (fault : StorageFault)
  | targetRead (fault : StorageFault)
  | merge (fault : UnsortedPath)
  | draw (fault : LayoutFault Float)
  | pictureWrite (fault : StorageFault)
  | difference (fault : DifferenceFault)
  | differenceDraw (fault : PictureFault Float)
  | differencePictureWrite (fault : StorageFault)
  | reportWrite (fault : FileFault)
  | profileInvalid (path : String) (fault : StorageFault)
  | amountInvalid (resource : Resource Float)
  deriving DecidableEq

/-- Wordings of a fault and of what lies behind it. -/
def DifferenceFault.chain : DifferenceFault -> List String
  | .baseline fault => ["Failed to aggregate baseline stacks", fault.message]
  | .target fault => ["Failed to aggregate target stacks", fault.message]

namespace TaskFault

/-- Most rows that a summary can be asked for. -/
def rowLimit : Nat := 1000

/-- Wordings of a fault and of what lies behind it, the step that failed first. -/
def chain : TaskFault -> List String
  | .noLog => ["Event log path cannot be empty"]
  | .logMissing path => [s!"Event log not found: {path}"]
  | .noRows => ["top_paths must be greater than 0"]
  | .tooManyRows => [s!"top_paths is too large (max {rowLimit})"]
  | .options fault => ["Invalid flamegraph options", fault.message]
  | .settings path fault => s!"Failed to load render config {path}" :: fault.chain
  | .log path fault => s!"Failed to parse event log {path}" :: fault.chain
  | .profileWrite fault => "Failed to write profile JSON" :: fault.chain
  | .profileRead path fault => s!"Failed to read profile {path}" :: fault.chain
  | .baselineRead fault => "Failed to read baseline profile" :: fault.chain
  | .targetRead fault => "Failed to read target profile" :: fault.chain
  | .merge fault => ["Failed to aggregate stacks", fault.message]
  | .draw fault => ["Failed to generate flamegraph", fault.message]
  | .pictureWrite fault => "Failed to write flamegraph SVG" :: fault.chain
  | .difference fault => "Failed to generate diff" :: fault.chain
  | .differenceDraw fault => ["Failed to generate diff flamegraph", fault.message]
  | .differencePictureWrite fault => "Failed to write diff flamegraph SVG" :: fault.chain
  | .reportWrite fault => ["Failed to write diff report JSON", fault.message]
  | .profileInvalid path fault => s!"{path} is not a valid profile" :: fault.chain
  | .amountInvalid resource =>
      [ s!"Resource {resource.location.write} on thread {resource.thread} " ++
          s!"has invalid amount {NumberText.plain resource.amount}" ]

/-- What the terminal shows of a fault. The reasons are numbered if there are
several. -/
def report (fault : TaskFault) : String :=
  let reasons := fault.chain.tail
  let lines :=
    match reasons with
    | [] => []
    | [reason] => ["", "Caused by:", "    " ++ reason]
    | _ =>
        "" :: "Caused by:" :: (reasons.zipIdx.map fun reason => s!"    {reason.2}: " ++ reason.1)
  String.intercalate "\n" (("Error: " ++ fault.chain.headD "") :: lines)

end TaskFault
end FlameProfile
