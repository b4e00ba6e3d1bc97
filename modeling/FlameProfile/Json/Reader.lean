import FlameProfile.Json.Scanner

/-!
# Reading documents

A document is read symbol by symbol. The rows and records that are still open
stand on a stack, each with what it holds so far, and what may come next is the
only other state. Where reading stops, the damage takes the next place, and
everything that is open is closed behind it.
-/

namespace FlameProfile
namespace Json

/-- A row or record that is still open, with its parts in reverse. -/
inductive Level
  | array (items : List Json)
  /-- A record with the name of the member that is being read. -/
  | object (members : List (Except Damage String × Json)) (name : Except Damage String)

namespace Level

/-- Add a value to what an open level holds. -/
def attach (value : Json) : Level -> Level
  | .array items => .array (value :: items)
  | .object members name => .object ((name, value) :: members) name

/-- The value of an open level. -/
def close : Level -> Json
  | .array items => .array items.reverse
  | .object members _ => .object members.reverse

end Level

/-- Add a last value and close all open levels, innermost first. -/
def closeAll : List Level -> Json -> Json
  | [], value => value
  | level :: outer, value => closeAll outer (level.attach value).close

/-- What may come next. -/
inductive Expecting
  /-- A value. -/
  | value
  /-- The first item of a row, or its end. -/
  | item
  /-- The name of the first member of a record, or its end. -/
  | name
  /-- The name of another member. -/
  | nextName
  /-- The colon behind a name. -/
  | colon
  /-- Another part of the innermost level, or its end. -/
  | next
  deriving DecidableEq

/-- Close everything behind a damaged place. A damaged name has no value. -/
def stopAt
    (levels : List Level)
    (expecting : Expecting)
    (damage : Damage) : Json :=
  match levels, expecting with
  | .object members _ :: outer, .name =>
      closeAll (.object members (.error damage) :: outer) .null
  | .object members _ :: outer, .nextName =>
      closeAll (.object members (.error damage) :: outer) .null
  | .object members _ :: outer, .next =>
      closeAll (.object members (.error damage) :: outer) .null
  | levels, _ => closeAll levels (.damaged damage)

/-- Whether a symbol is blank between the parts of a document. -/
def isBlank (symbol : Option Char) : Bool :=
  symbol = some ' ' || symbol = some '\n' || symbol = some '\t' || symbol = some '\r'

/-- A scanned name. -/
def nameOf : Json -> Except Damage String
  | .text name => .ok name
  | .damaged damage => .error damage
  | _ => .error (Damage.stop .malformed true)

/-- Read on with levels open. The symbols behind the document come with it,
unless reading stopped inside. -/
def readFrom
    (levels : List Level)
    (expecting : Expecting)
    (symbols : Symbols) : Json × Option Symbols :=
  match symbols with
  | [] => (stopAt levels expecting (Damage.stop .ended (decide (expecting = .value))), none)
  | symbol :: rest =>
      if isBlank symbol then
        readFrom levels expecting rest
      else
        let malformed := (stopAt levels expecting (Damage.stop .malformed true), none)
        match expecting, symbol, levels with
        | .item, some ']', .array _ :: [] => (.array [], some rest)
        | .item, some ']', .array _ :: level :: outer =>
            readFrom (level.attach (.array []) :: outer) .next rest
        | .name, some '\x7d', .object _ _ :: [] => (.object [], some rest)
        | .name, some '\x7d', .object _ _ :: level :: outer =>
            readFrom (level.attach (.object []) :: outer) .next rest
        | .name, some '"', .object members _ :: outer
        | .nextName, some '"', .object members _ :: outer =>
            match _ : scanText ⟨false, false⟩ [] rest with
            | .stopped damage => (stopAt levels expecting damage, none)
            | .found name behind =>
                readFrom (.object members (nameOf name) :: outer) .colon behind
        | .name, _, _ => malformed
        | .nextName, _, _ => malformed
        | .colon, some ':', _ => readFrom levels .value rest
        | .colon, _, _ => malformed
        | .next, some ',', .array _ :: _ => readFrom levels .value rest
        | .next, some ',', .object _ _ :: _ => readFrom levels .nextName rest
        | .next, some ']', .array items :: [] => (.array items.reverse, some rest)
        | .next, some ']', .array items :: level :: outer =>
            readFrom (level.attach (.array items.reverse) :: outer) .next rest
        | .next, some '\x7d', .object members _ :: [] => (.object members.reverse, some rest)
        | .next, some '\x7d', .object members _ :: level :: outer =>
            readFrom (level.attach (.object members.reverse) :: outer) .next rest
        | .next, _, _ => malformed
        | _, some '[', _ => readFrom (.array [] :: levels) .item rest
        | _, some '\x7b', _ => readFrom (.object [] (.ok "") :: levels) .name rest
        | _, _, _ =>
            match _ : scanScalar (symbol :: rest) with
            | .stopped damage => (closeAll levels (.damaged damage), none)
            | .found value behind =>
                match levels with
                | [] => (value, some behind)
                | level :: outer => readFrom (level.attach value :: outer) .next behind
termination_by symbols.length
decreasing_by
  all_goals first
    | exact Nat.lt_succ_self _
    | exact Nat.lt_succ_of_lt (length_of_scanText (by assumption))
    | exact length_of_scanScalar (by assumption)

/-- Read a document and the symbols behind it. -/
def read (symbols : Symbols) : Json × Option Symbols :=
  readFrom [] .value symbols

end Json
end FlameProfile
