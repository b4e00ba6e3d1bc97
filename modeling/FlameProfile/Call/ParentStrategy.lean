import FlameProfile.Event.Line

/-!
# Parents of threads

A log does not say which thread started another one. A parent rule guesses the
parent of a thread when the thread first enters a call, from the events before
that one, the latest event first.
-/

namespace FlameProfile

/-- A guess of the parent of a thread from the events before it, latest first. -/
abbrev ParentRule (Time : Type) :=
  String -> List (Event Time) -> Option String

/-- The parent rules that can be asked for by name. -/
inductive ParentStrategy
  | nearest
  | none
  deriving DecidableEq

namespace ParentStrategy

/-- A name that no strategy has. -/
structure UnknownName where
  name : String
  deriving DecidableEq

/-- Wording of an unknown name. -/
def UnknownName.message (unknown : UnknownName) : String :=
  s!"unknown parent strategy '{unknown.name}' (expected 'nearest' or 'none')"

/-- Name of a strategy. -/
def name : ParentStrategy -> String
  | .nearest => "nearest"
  | .none => "none"

/-- The strategy with a name, in letters of either case. -/
def ofName (name : String) : Except UnknownName ParentStrategy :=
  match name.toLower with
  | "nearest" => .ok .nearest
  | "none" => .ok .none
  | other => .error ⟨other⟩

/-- The rule of a strategy: the nearest strategy takes the thread of the latest
event on another thread, the other strategy takes none. -/
def rule
    {Time : Type}
    (strategy : ParentStrategy) : ParentRule Time :=
  match strategy with
  | .nearest => fun thread history =>
      (history.find? fun event => event.thread ≠ thread).map Event.thread
  | .none => fun _ _ => Option.none

end ParentStrategy
end FlameProfile
