import FlameProfile.Toml.Value

/-!
# Documents of settings

A document is a sequence of statements: headers that announce a table or start
another table of a row, and entries that give a value to a name in the table of
the latest header. A name may have several parts, of which all but the last
name tables on the way.

No statement may take back what an earlier one settled. A table is announced
once; a table written in one piece stays as it is; and a dotted name ends in a
table that dotted names made.
-/

namespace FlameProfile
namespace Toml

/-- One statement of a document. -/
inductive Statement
  /-- Announce a table; the entries that follow belong to it. -/
  | announce (path : List String)
  /-- Start another table of a row; the entries that follow belong to it. -/
  | another (path : List String)
  /-- Give a value to a name. -/
  | entry (path : List String) (value : Toml)

namespace Members

/-- Give a value to a name of one or more parts. -/
def assign
    (value : Toml) : List String -> Members -> Option Members
  | [], _ => none
  | [name], members => members.add name value
  | name :: next :: more, members =>
      match members.lookup name with
      | none =>
          (assign value (next :: more) []).map fun inner =>
            members ++ [(name, .table .dotted inner)]
      | some (.table form inner) =>
          if form = .dotted ∨ form = .implied ∧ more ≠ [] then
            (assign value (next :: more) inner).map fun inner =>
              members.replace name (.table form inner)
          else
            none
      | some (.tables earlier latest) =>
          if more ≠ [] then
            (assign value (next :: more) latest).map fun latest =>
              members.replace name (.tables earlier latest)
          else
            none
      | some _ => none

/-- Change the table that a header names. Tables on the way come about by it. -/
def within
    (change : Members -> Option Members) : List String -> Members -> Option Members
  | [], members => change members
  | name :: more, members =>
      match members.lookup name with
      | none =>
          (within change more []).map fun inner =>
            members ++ [(name, .table .implied inner)]
      | some (.table form inner) =>
          if form = .closed then
            none
          else
            (within change more inner).map fun inner =>
              members.replace name (.table form inner)
      | some (.tables earlier latest) =>
          (within change more latest).map fun latest =>
            members.replace name (.tables earlier latest)
      | some _ => none

/-- Announce a table that was at most passed through before. -/
def announce
    (name : String)
    (members : Members) : Option Members :=
  match members.lookup name with
  | none => some (members ++ [(name, .table .announced [])])
  | some (.table .implied inner) => some (members.replace name (.table .announced inner))
  | some _ => none

/-- Start another table of a row. -/
def another
    (name : String)
    (members : Members) : Option Members :=
  match members.lookup name with
  | none => some (members ++ [(name, .tables [] [])])
  | some (.tables earlier latest) =>
      some (members.replace name (.tables (earlier ++ [latest]) []))
  | some _ => none

/-- The table that entries make, without headers. -/
def ofEntries
    (entries : List (List String × Toml)) : Option Members :=
  entries.foldlM (fun members entry => assign entry.2 entry.1 members) []

end Members

/-- A document that is being put together. -/
structure Draft where
  /-- Name of the table that entries belong to. -/
  header : List String
  members : Members

namespace Draft

/-- Add a statement. -/
def add
    (draft : Draft) : Statement -> Option Draft
  | .announce path =>
      (path.getLast?.bind fun name =>
        Members.within (Members.announce name) path.dropLast draft.members).map (Draft.mk path)
  | .another path =>
      (path.getLast?.bind fun name =>
        Members.within (Members.another name) path.dropLast draft.members).map (Draft.mk path)
  | .entry path value =>
      (Members.within (Members.assign value path) draft.header draft.members).map
        (Draft.mk draft.header)

end Draft

/-- The table that statements describe, if none of them contradicts another. -/
def ofStatements (statements : List Statement) : Option Members :=
  (statements.foldlM Draft.add ⟨[], []⟩).map Draft.members

end Toml
end FlameProfile
