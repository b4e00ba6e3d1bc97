import FlameProfile.CommandLine.Invocation

/-!
# The program

Run on its arguments the program succeeds, fails at a task or is misused. Each
outcome has an exit code of its own.
-/

namespace FlameProfile
namespace CommandLine

/-- How the program ends. -/
inductive Outcome
  | success
  | failure (fault : TaskFault)
  | misuse
  deriving DecidableEq

namespace Outcome

/-- Exit code of an outcome. -/
def code : Outcome -> Nat
  | .success => 0
  | .failure _ => 1
  | .misuse => 2

/-- What the terminal shows of an outcome that is no success. -/
def report : Outcome -> String
  | .success => ""
  | .failure fault => fault.report
  | .misuse => "error: the arguments cannot be used; see '--help'"

end Outcome

/-- Lines on how to use the program. -/
def usage : List String :=
  [ "Call-stack reconstruction and flamegraphs for event traces"
  , ""
  , s!"Usage: {Reference.programName} [OPTIONS] <COMMAND>"
  , ""
  , "Commands:" ] ++
    Invocation.commands.map fun command =>
      "  " ++ Text.padRight 11 command.name ++ command.purpose

/-- Run the program on arguments. -/
def run
    (arguments : List String)
    (session : Session) : Outcome × Session :=
  let finish := fun task : Task TaskFault Unit =>
    match task.run session with
    | (.ok (), after) => (.success, after)
    | (.error fault, after) => (.failure fault, after)
  match Invocation.read arguments with
  | .error .help => finish (usage.forM Task.say)
  | .error .version =>
      finish (Task.say s!"{Reference.programName} {Reference.programVersion}")
  | .error .misuse => (.misuse, session)
  | .ok invocation => finish invocation.run

/-- Whether a terminal shows colours. It does unless a setting forbids it, and
what is no terminal does not unless a setting demands it. -/
def isColoured
    (isTerminal : Bool)
    (forced forbidden allowed : Option String) : Bool :=
  if forced.any (fun setting => setting ≠ "0") then
    true
  else if forbidden.isSome then
    false
  else
    isTerminal && allowed ≠ some "0"

end CommandLine
end FlameProfile
