/-!
# Kinds of events

A call is entered by a start or a resumption. It is left by a return or a
yield, or with an exception by a throw or an unwinding.
-/

namespace FlameProfile

/-- The kinds of events in a log. -/
inductive EventKind
  | started
  | resumed
  | returned
  | yielded
  | threw
  | unwound
  deriving DecidableEq

namespace EventKind

/-- Token of a kind in a log. -/
def token : EventKind -> String
  | .started => "PY_START"
  | .resumed => "PY_RESUME"
  | .returned => "PY_RETURN"
  | .yielded => "PY_YIELD"
  | .threw => "PY_THROW"
  | .unwound => "PY_UNWIND"

/-- All kinds. -/
def all : List EventKind :=
  [.started, .resumed, .returned, .yielded, .threw, .unwound]

/-- The kind with a token. -/
def ofToken? (token : String) : Option EventKind :=
  all.find? fun kind => kind.token = token

@[simp] theorem ofToken?_token (kind : EventKind) :
    ofToken? kind.token = some kind := by
  cases kind <;> decide

/-- A found kind has the token asked for. -/
theorem token_of_ofToken?
    {token : String}
    {kind : EventKind}
    (found : ofToken? token = some kind) :
    kind.token = token := by
  simpa using List.find?_some found

/-- Whether events of a kind enter a call. -/
def isEntry : EventKind -> Bool
  | .started => true
  | .resumed => true
  | _ => false

/-- Whether events of a kind leave a call with an exception. -/
def isException : EventKind -> Bool
  | .threw => true
  | .unwound => true
  | _ => false

end EventKind
end FlameProfile
