import FlameProfile.CommandLine.Parameter
import FlameProfile.Report.Reference
import FlameProfile.Session.Contrast
import FlameProfile.Session.Inspection

/-!
# Invocations of the program

The arguments of the program name a command and give values to its parameters.
Drawing options can be taken from a settings file; parameters go before it.
-/

namespace FlameProfile
namespace CommandLine

/-- Drawing options as the arguments give them. -/
structure Adjustments where
  /-- Path of a settings file. -/
  settings : Option String
  title : Option String
  width : Option Float
  minWidth : Option Float
  frameHeight : Option Float
  icicle : Bool

namespace Adjustments

/-- Change drawing options. -/
def apply
    (adjustments : Adjustments)
    (options : DrawingOptions Float) : DrawingOptions Float :=
  { options with
    title := adjustments.title.getD options.title
    width := adjustments.width.getD options.width
    minWidth := adjustments.minWidth.getD options.minWidth
    frameHeight := adjustments.frameHeight.getD options.frameHeight
    orientation := if adjustments.icicle then .icicle else options.orientation }

/-- The drawing options that are asked for. -/
def options (adjustments : Adjustments) : Task TaskFault (DrawingOptions Float) := do
  let usual ←
    match adjustments.settings with
    | none => pure DrawingOptions.standard
    | some path => (Storage.readOptions path).failingWith (TaskFault.settings path)
  let options := adjustments.apply usual
  (Task.ofResult options.validate).failingWith .options
  return options

end Adjustments

/-- What the program is asked to do. -/
inductive Invocation
  | analyze (analysis : Analysis) (adjustments : Adjustments)
  | flamegraph (rendering : Rendering) (adjustments : Adjustments)
  | diff (contrast : Contrast) (adjustments : Adjustments)
  | validate (path : String)
  | schema (detailed : Bool)
  | version

namespace Invocation

/-! ## Parameters -/

/-- Parameters that every command has. -/
def common : List Parameter :=
  [ ⟨"verbose", some 'v', .flag⟩
  , ⟨"help", some 'h', .stop .help⟩ ]

/-- Parameters that stand before the command. -/
def leading : List Parameter :=
  common ++ [⟨"version", some 'V', .stop .version⟩]

/-- Parameters of commands that draw. -/
def drawing : List Parameter :=
  [ ⟨"config", none, .value .path⟩
  , ⟨"title", none, .value .text⟩
  , ⟨"width", none, .value .number⟩
  , ⟨"min-width", none, .value .number⟩
  , ⟨"frame-height", none, .value .number⟩
  , ⟨"icicle", none, .flag⟩ ]

/-- Parameters of an analysis. -/
def ofAnalysis : List Parameter :=
  [ ⟨"events", some 'e', .value .path⟩
  , ⟨"output", some 'o', .value .path⟩
  , ⟨"flamegraph", some 'f', .optional .path "flamegraph.svg"⟩
  , ⟨"parent-strategy", none, .value .strategy⟩
  , ⟨"summary", none, .flag⟩
  , ⟨"top-paths", none, .value .count⟩
  , ⟨"cmd", none, .value .text⟩
  , ⟨"workload", none, .value .text⟩ ]

/-- Parameters of a rendering. -/
def ofRendering : List Parameter :=
  [ ⟨"profile", some 'p', .value .path⟩
  , ⟨"output", some 'o', .value .path⟩ ]

/-- Parameters of a contrast. -/
def ofContrast : List Parameter :=
  [ ⟨"baseline", some 'b', .value .path⟩
  , ⟨"target", some 't', .value .path⟩
  , ⟨"output", some 'o', .value .path⟩
  , ⟨"report", none, .value .path⟩
  , ⟨"summary", none, .flag⟩
  , ⟨"top", none, .value .count⟩ ]

/-! ## Commands -/

/-- Rows that a table has unless another number is asked for. -/
def usualRows : Nat := 10

/-- The adjustments that were given. -/
def adjustments (given : Given) : Adjustments where
  settings := given.text? "config"
  title := given.text? "title"
  width := given.number? "width"
  minWidth := given.number? "min-width"
  frameHeight := given.number? "frame-height"
  icicle := given.has "icicle"

/-- The analysis that was asked for. -/
def analysis? (given : Given) : Option Invocation :=
  (given.text? "events").map fun log =>
    .analyze
      { log := log
        profile := (given.text? "output").getD "profile.json"
        picture := given.text? "flamegraph"
        options := none
        strategy := (given.strategy? "parent-strategy").getD .nearest
        summary := given.has "summary"
        limit := (given.count? "top-paths").getD usualRows
        command := (given.text? "cmd").getD ""
        workload := (given.text? "workload").getD "" }
      (adjustments given)

/-- The rendering that was asked for. -/
def rendering? (given : Given) : Option Invocation :=
  (given.text? "profile").map fun profile =>
    .flamegraph
      { profile := profile
        picture := (given.text? "output").getD "flamegraph.svg"
        options := none }
      (adjustments given)

/-- The contrast that was asked for. -/
def contrast? (given : Given) : Option Invocation :=
  match given.text? "baseline", given.text? "target" with
  | some baseline, some target =>
      some (.diff
        { baseline := baseline
          target := target
          summary := given.has "summary"
          limit := (given.count? "top").getD usualRows
          report := given.text? "report"
          picture := given.text? "output"
          options := none }
        (adjustments given))
  | _, _ => none

/-- A command with its parameters and what they ask for. -/
structure Command where
  name : String
  purpose : String
  parameters : List Parameter
  invocation? : Given -> Option Invocation

/-- The commands of the program. -/
def commands : List Command :=
  [ ⟨"analyze", "Analyze an event log into a profile and optional flamegraph",
      ofAnalysis ++ drawing ++ common, analysis?⟩
  , ⟨"flamegraph", "Render a flamegraph from an existing profile",
      ofRendering ++ drawing ++ common, rendering?⟩
  , ⟨"diff", "Compare two profiles", ofContrast ++ drawing ++ common, contrast?⟩
  , ⟨"validate", "Validate a profile JSON file",
      ⟨"file", some 'f', .value .path⟩ :: common,
      fun given => (given.text? "file").map .validate⟩
  , ⟨"schema", "Display schema information",
      ⟨"show", none, .flag⟩ :: common,
      fun given => some (.schema (given.has "show"))⟩
  , ⟨"version", "Display version information", common, fun _ => some .version⟩ ]

/-- The command with a name. -/
def command? (name : String) : Option Command :=
  commands.find? fun command => command.name = name

/-- Name of the command that shows help. -/
def helpName : String := "help"

/-- Read the arguments of the program. -/
def read (arguments : List String) : Except Stop Invocation := do
  match ← readArguments leading .start arguments with
  | (_, []) => throw .misuse
  | (_, name :: rest) =>
      if name = helpName then
        throw (if rest.all fun name => name = helpName || (command? name).isSome
          then .help else .misuse)
      match command? name with
      | none => throw .misuse
      | some command =>
          match ← readArguments command.parameters .start rest with
          | (given, []) =>
              match command.invocation? given with
              | none => throw .misuse
              | some invocation => return invocation
          | _ => throw .misuse

/-- The paths that an invocation reads or writes. -/
def paths : Invocation -> List String
  | .analyze analysis adjustments =>
      [analysis.log, analysis.profile] ++ analysis.picture.toList ++
        adjustments.settings.toList
  | .flamegraph rendering adjustments =>
      [rendering.profile, rendering.picture] ++ adjustments.settings.toList
  | .diff contrast adjustments =>
      [contrast.baseline, contrast.target] ++ contrast.report.toList ++
        contrast.picture.toList ++ adjustments.settings.toList
  | .validate path => [path]
  | .schema _ => []
  | .version => []

/-- Do what is asked for. -/
def run : Invocation -> Task TaskFault Unit
  | .analyze analysis adjustments => do
      let analysis := { analysis with options := some (← adjustments.options) }
      Task.ofResult (analysis.validate (← Task.workspace))
      let _ ← analysis.run
  | .flamegraph rendering adjustments => do
      Rendering.run { rendering with options := some (← adjustments.options) }
  | .diff contrast adjustments => do
      let _ ← Contrast.run { contrast with options := some (← adjustments.options) }
  | .validate path => Inspection.run path
  | .schema detailed => (Reference.schema detailed).forM Task.say
  | .version => Reference.version.forM Task.say

end Invocation
end CommandLine
end FlameProfile
