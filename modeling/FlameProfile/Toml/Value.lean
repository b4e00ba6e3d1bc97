/-!
# Tables of settings

A settings file is a table of named values. Besides texts, numbers, truth
values and moments in time there are rows of values, tables inside tables, and
rows of tables that are filled one after the other.

How a table came about decides what may still be added to it, so every table
remembers it.
-/

namespace FlameProfile

/-- How a table inside another one came about. -/
inductive TableForm
  /-- Written in one piece; nothing can be added. -/
  | closed
  /-- Announced by a header of its own. -/
  | announced
  /-- Passed through by the header of a table inside it. -/
  | implied
  /-- Passed through by a name of several parts. -/
  | dotted
  deriving DecidableEq

/-- A value of a settings file. -/
inductive Toml
  | text (content : String)
  | integer (value : Int)
  | number (value : Float)
  | truth (value : Bool)
  /-- A date, a time of day or both, as it is written. -/
  | moment (written : String)
  | row (items : List Toml)
  | table (form : TableForm) (members : List (String × Toml))
  /-- Tables that are filled one after the other, the latest apart. -/
  | tables (earlier : List (List (String × Toml))) (latest : List (String × Toml))

namespace Toml

/-- The named values of a table. -/
abbrev Members := List (String × Toml)

namespace Members

/-- Put a value in the place of the one with a name. -/
def replace
    (members : Members)
    (name : String)
    (value : Toml) : Members :=
  members.map fun member => if member.1 = name then (name, value) else member

/-- Add a value under a name that is still free. -/
def add
    (members : Members)
    (name : String)
    (value : Toml) : Option Members :=
  match members.lookup name with
  | none => some (members ++ [(name, value)])
  | some _ => none

end Members
end Toml
end FlameProfile
