import FlameProfile.Toml.Document
import FlameProfile.Toml.Scalar

/-!
# Reading settings

A document is read statement by statement, each on a line of its own. Rows may
go over several lines and end in a comma; a table in one piece stays on its
line and may not. Values nest up to a bound.
-/

namespace FlameProfile
namespace Toml

/-- Read a value that holds no other one. -/
def readScalar (text : List Char) : Option (Toml × List Char) :=
  match text with
  | '"' :: _ => (readText text).map fun found => (.text found.1, found.2)
  | '\'' :: _ => (readText text).map fun found => (.text found.1, found.2)
  | _ => readWord text

/-- Read the items of a row behind its opening bracket. -/
def readItems
    (value : Reading Toml)
    (text : List Char) : Option (List Toml × List Char) :=
  let item : Reading (Toml × Bool) := fun text => do
    let (value, rest) ← value text
    match skipFiller false rest with
    | ']' :: behind => some ((value, false), behind)
    | ',' :: behind =>
        match skipFiller false behind with
        | ']' :: behind => some ((value, false), behind)
        | behind => some ((value, true), behind)
    | _ => none
  match skipFiller false text with
  | ']' :: rest => some ([], rest)
  | text => readRow item text

/-- Read a name, the sign of equality and a value. -/
def readEntry
    (value : Reading Toml)
    (text : List Char) : Option ((List String × Toml) × List Char) := do
  match ← readName text with
  | (name, '=' :: rest) =>
      let (value, rest) ← value (skipBlanks rest)
      some ((name, value), rest)
  | _ => none

/-- Read the members of a table in one piece behind its opening brace. -/
def readMembers
    (value : Reading Toml)
    (text : List Char) : Option (List (List String × Toml) × List Char) :=
  let member : Reading ((List String × Toml) × Bool) := fun text => do
    let (entry, rest) ← readEntry value text
    match skipBlanks rest with
    | '\x7d' :: behind => some ((entry, false), behind)
    | ',' :: behind => some ((entry, true), behind)
    | _ => none
  match skipBlanks text with
  | '\x7d' :: rest => some ([], rest)
  | text => readRow member text

/-- Read a value whose parts nest up to a depth. -/
def readValue : Nat -> Reading Toml
  | 0, symbols => readScalar symbols
  | depth + 1, symbols =>
      match symbols with
      | '[' :: rest =>
          (readItems (readValue depth) rest).map fun found => (.row found.1, found.2)
      | '\x7b' :: rest => do
          let (entries, rest) ← readMembers (readValue depth) rest
          (Members.ofEntries entries).map fun members => (.table .closed members, rest)
      | _ => readScalar symbols

/-- Read the statement at the beginning of a line. -/
def readStatement (text : List Char) : Option (Statement × List Char) :=
  match text with
  | '[' :: '[' :: rest => do
      match ← readName rest with
      | (name, ']' :: ']' :: rest) => some (.another name, rest)
      | _ => none
  | '[' :: rest => do
      match ← readName rest with
      | (name, ']' :: rest) => some (.announce name, rest)
      | _ => none
  | _ =>
      (readEntry (readValue (depthLimit - 1)) text).map fun found =>
        (.entry found.1.1 found.1.2, found.2)

/-- Read the statements of a document. -/
def readStatements (text : List Char) : Option (List Statement) :=
  let line : Reading (Statement × Bool) := fun text => do
    let (statement, rest) ← readStatement text
    let rest := skipFiller false (← endLine rest)
    some ((statement, !rest.isEmpty), rest)
  match skipFiller false text with
  | [] => some []
  | text => (readRow line text).map Prod.fst

/-- Leave out the mark that some files begin with. -/
def skipByteOrderMark : List Char -> List Char
  | '\ufeff' :: rest => rest
  | symbols => symbols

/-- Read a document. -/
def read (text : String) : Option Members :=
  (readStatements (joinLineEnds (skipByteOrderMark text.toList))).bind ofStatements

end Toml
end FlameProfile
