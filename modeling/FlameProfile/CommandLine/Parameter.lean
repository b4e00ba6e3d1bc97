import FlameProfile.Call.ParentStrategy
import FlameProfile.Decimal.Numeral

/-!
# Parameters of a command

A parameter is named by a word behind two hyphens or by a letter behind one.
Its value follows as the next argument or is attached: to the word behind a
sign of equality, to the letter directly or behind such a sign. Letters of
parameters without values can share a hyphen. No parameter may be given twice,
and two hyphens alone end the parameters.
-/

namespace FlameProfile
namespace CommandLine

/-- What kind of value a parameter takes. -/
inductive ValueKind
  | path
  | text
  | number
  | count
  | strategy
  deriving DecidableEq

/-- A value that a parameter was given. -/
inductive Value
  | present
  | text (content : String)
  | number (value : Float)
  | count (value : Nat)
  | strategy (value : ParentStrategy)
  deriving DecidableEq

/-- Read a value of a kind. A path cannot be empty. -/
def ValueKind.read
    (kind : ValueKind)
    (written : String) : Option Value :=
  match kind with
  | .path => if written = "" then none else some (.text written)
  | .text => some (.text written)
  | .number => (Decimal.read written.toList).toOption.map .number
  | .count => (Numeral.read (Numeral.wordLimit 64) written.toList).toOption.map .count
  | .strategy => (ParentStrategy.ofName written).toOption.map .strategy

/-- Why reading arguments ends before their end. -/
inductive Stop
  | help
  | version
  | misuse
  deriving DecidableEq

/-- What a parameter takes. -/
inductive Use
  /-- No value. -/
  | flag
  /-- One value. -/
  | value (kind : ValueKind)
  /-- One value, or none for a usual one. -/
  | optional (kind : ValueKind) (usual : String)
  /-- No value; the rest of the arguments does not matter. -/
  | stop (reason : Stop)
  deriving DecidableEq

/-- A parameter with its word, its letter and what it takes. -/
structure Parameter where
  word : String
  letter : Option Char
  use : Use
  deriving DecidableEq

/-- The values that parameters were given, by their words. -/
abbrev Given := List (String × Value)

namespace Given

/-- Add a value. -/
def add
    (given : Given)
    (word : String)
    (value : Value) : Except Stop Given :=
  match given.lookup word with
  | none => .ok (given ++ [(word, value)])
  | some _ => .error .misuse

/-- Read a value and add it. -/
def addWritten
    (given : Given)
    (parameter : Parameter)
    (kind : ValueKind)
    (written : String) : Except Stop Given :=
  match kind.read written with
  | none => .error .misuse
  | some value => given.add parameter.word value

/-- Whether a flag was given. -/
def has
    (given : Given)
    (word : String) : Bool :=
  (given.lookup word).isSome

/-- The text that a parameter was given. -/
def text?
    (given : Given)
    (word : String) : Option String :=
  match given.lookup word with
  | some (.text content) => some content
  | _ => none

/-- The number that a parameter was given. -/
def number?
    (given : Given)
    (word : String) : Option Float :=
  match given.lookup word with
  | some (.number value) => some value
  | _ => none

/-- The count that a parameter was given. -/
def count?
    (given : Given)
    (word : String) : Option Nat :=
  match given.lookup word with
  | some (.count value) => some value
  | _ => none

/-- The strategy that a parameter was given. -/
def strategy?
    (given : Given)
    (word : String) : Option ParentStrategy :=
  match given.lookup word with
  | some (.strategy value) => some value
  | _ => none

end Given

/-- Arguments that have been read in part. -/
structure Progress where
  given : Given
  /-- The parameter that waits for its value. -/
  waiting : Option Parameter

namespace Progress

/-- Nothing has been read. -/
def start : Progress :=
  ⟨[], none⟩

/-- Let a parameter that waits go without a value, if it can. -/
def settle (progress : Progress) : Except Stop Given :=
  match progress.waiting with
  | none => .ok progress.given
  | some parameter =>
      match parameter.use with
      | .optional kind usual => progress.given.addWritten parameter kind usual
      | _ => .error .misuse

/-- Take an argument that names no parameter as the value that is waited for. -/
def takeValue
    (progress : Progress)
    (argument : String) : Except Stop Progress :=
  match progress.waiting with
  | none => .error .misuse
  | some parameter =>
      match parameter.use with
      | .value kind | .optional kind _ =>
          (progress.given.addWritten parameter kind argument).map fun given => ⟨given, none⟩
      | _ => .error .misuse

/-- Take a parameter with the value attached to it, if any. -/
def takeParameter
    (progress : Progress)
    (parameter : Parameter)
    (attached : Option String) : Except Stop Progress := do
  match parameter.use, attached with
  | .flag, none =>
      let given ← progress.settle
      return ⟨← given.add parameter.word .present, none⟩
  | .stop reason, none =>
      let _ ← progress.settle
      throw reason
  | .flag, some _ | .stop _, some _ => throw .misuse
  | .value kind, some written | .optional kind _, some written =>
      let given ← progress.settle
      return ⟨← given.addWritten parameter kind written, none⟩
  | .value _, none | .optional _ _, none =>
      return ⟨← progress.settle, some parameter⟩

end Progress

/-- The parameter with a word. -/
def findWord?
    (parameters : List Parameter)
    (word : String) : Option Parameter :=
  parameters.find? fun parameter => parameter.word = word

/-- The parameter with a letter. -/
def findLetter?
    (parameters : List Parameter)
    (letter : Char) : Option Parameter :=
  parameters.find? fun parameter => parameter.letter = some letter

/-- Read what stands behind two hyphens. -/
def readWord
    (parameters : List Parameter)
    (progress : Progress)
    (written : List Char) : Except Stop Progress :=
  let word := String.ofList (written.takeWhile fun character => character ≠ '=')
  let attached :=
    match written.dropWhile fun character => character ≠ '=' with
    | [] => none
    | _ :: value => some (String.ofList value)
  match findWord? parameters word with
  | none => .error .misuse
  | some parameter => progress.takeParameter parameter attached

/-- Read what stands behind one hyphen. -/
def readLetters
    (parameters : List Parameter)
    (progress : Progress) : List Char -> Except Stop Progress
  | [] => .ok progress
  | letter :: rest =>
      match findLetter? parameters letter with
      | none => .error .misuse
      | some parameter =>
          match parameter.use with
          | .flag | .stop _ =>
              match progress.takeParameter parameter none with
              | .error stop => .error stop
              | .ok next => readLetters parameters next rest
          | .value _ | .optional _ _ =>
              match rest with
              | [] => progress.takeParameter parameter none
              | '=' :: value => progress.takeParameter parameter (some (String.ofList value))
              | value => progress.takeParameter parameter (some (String.ofList value))

/-- Read arguments. The first one that is neither a parameter nor a value comes
with those behind it; none may follow two hyphens alone. -/
def readArguments
    (parameters : List Parameter)
    (progress : Progress) : List String -> Except Stop (Given × List String)
  | [] => progress.settle.map fun given => (given, [])
  | argument :: rest =>
      match argument.toList with
      | ['-', '-'] =>
          if rest = [] then
            progress.settle.map fun given => (given, [])
          else
            .error .misuse
      | '-' :: '-' :: written => do
          readArguments parameters (← readWord parameters progress written) rest
      | '-' :: letter :: written => do
          readArguments parameters (← readLetters parameters progress (letter :: written)) rest
      | _ =>
          if progress.waiting = none then
            .ok (progress.given, argument :: rest)
          else do
            readArguments parameters (← progress.takeValue argument) rest

end CommandLine
end FlameProfile
