import FlameProfile.Json.Reader
import FlameProfile.TextMap

/-!
# Taking documents apart

A document is taken apart from left to right, so that of several faults the
first one counts. A record with known fields may also be written as a row of
their values in order. Unknown fields are passed over, a field may not be given
twice, and nothing but blanks may stand behind the document.
-/

namespace FlameProfile
namespace Json

/-- The fault met by a reader who expected another shape of value. -/
def mismatch : Json -> Fault
  | .damaged damage => damage.used
  | _ => .mismatch

mutual

/-- Pass over a value. -/
def skip : Json -> Except Fault Unit
  | .array items => skipItems items
  | .object members => skipMembers members
  | .damaged damage =>
      match damage.skipped with
      | some fault => .error fault
      | none => .ok ()
  | _ => .ok ()

/-- Pass over the items of a row. -/
def skipItems : List Json -> Except Fault Unit
  | [] => .ok ()
  | item :: items =>
      match skip item with
      | .error fault => .error fault
      | .ok () => skipItems items

/-- Pass over the members of a record. -/
def skipMembers : List (Except Damage String × Json) -> Except Fault Unit
  | [] => .ok ()
  | (name, value) :: members =>
      match (match name with
        | .ok _ => none
        | .error damage => damage.skipped), skip value with
      | some fault, _ => .error fault
      | none, .error fault => .error fault
      | none, .ok () => skipMembers members

end

/-! ## Values without parts -/

/-- Take a text. -/
def asText : Json -> Except Fault String
  | .text value => .ok value
  | other => .error other.mismatch

/-- Take a whole number below a limit. -/
def asNatural (limit : Nat) : Json -> Except Fault Nat
  | .natural value => if value < limit then .ok value else .error .mismatch
  | other => .error other.mismatch

/-- Take a number of any kind. -/
def asNumber : Json -> Except Fault Float
  | .natural value => .ok (Float.ofNat value)
  | .negative size => .ok (-(Float.ofNat size))
  | .number value => .ok value
  | other => .error other.mismatch

/-! ## Rows and maps -/

/-- Take all items of a list apart. -/
def decodeItems
    {Item : Type}
    (decode : Json -> Except Fault Item) : List Json -> Except Fault (List Item)
  | [] => .ok []
  | item :: items =>
      match decode item with
      | .error fault => .error fault
      | .ok value => (decodeItems decode items).map fun values => value :: values

/-- Take a row apart. -/
def asList
    {Item : Type}
    (decode : Json -> Except Fault Item) : Json -> Except Fault (List Item)
  | .array items => decodeItems decode items
  | other => .error other.mismatch

/-- Put members with texts into a map. -/
def decodeTexts (map : TextMap) :
    List (Except Damage String × Json) -> Except Fault TextMap
  | [] => .ok map
  | (.error damage, _) :: _ => .error damage.used
  | (.ok name, value) :: members =>
      match value.asText with
      | .error fault => .error fault
      | .ok content => decodeTexts (map.insert name content) members

/-- Take a map of texts apart. -/
def asTextMap : Json -> Except Fault TextMap
  | .object members => decodeTexts TextMap.empty members
  | other => .error other.mismatch

/-! ## Records with known fields -/

/-- Fill in a field that may be given once. -/
def fillOnce
    {Value : Type}
    (field : Option Value)
    (value : Except Fault Value) : Except Fault (Option Value) :=
  match field with
  | some _ => .error .mismatch
  | none => value.map some

/-- A field that has to be given. -/
def required
    {Value : Type}
    (field : Option Value) : Except Fault Value :=
  match field with
  | some value => .ok value
  | none => .error .mismatch

variable {Draft : Type}

/-- Fill in the fields of a record from its members. -/
def fillMembers
    (names : List String)
    (fill : Draft -> String -> Json -> Except Fault Draft) :
    Draft -> List (Except Damage String × Json) -> Except Fault Draft
  | draft, [] => .ok draft
  | _, (.error damage, _) :: _ => .error damage.used
  | draft, (.ok name, value) :: members =>
      if name ∈ names then
        match fill draft name value with
        | .error fault => .error fault
        | .ok filled => fillMembers names fill filled members
      else
        match value.skip with
        | .error fault => .error fault
        | .ok () => fillMembers names fill draft members

/-- Fill in the fields of a record from their values in order. -/
def fillItems
    (fill : Draft -> String -> Json -> Except Fault Draft) :
    List String -> Draft -> List Json -> Except Fault Draft
  | _, draft, [] => .ok draft
  | [], draft, .damaged damage :: _ =>
      if damage.started then .error .malformed
      else
        match damage.skipped with
        | some fault => .error fault
        | none => .ok draft
  | [], _, _ :: _ => .error .malformed
  | name :: names, draft, item :: items =>
      match fill draft name item with
      | .error fault => .error fault
      | .ok filled => fillItems fill names filled items

/-- Fill in the fields of a record, which may be written as a row. -/
def fillFields
    (names : List String)
    (fill : Draft -> String -> Json -> Except Fault Draft)
    (empty : Draft) : Json -> Except Fault Draft
  | .object members => fillMembers names fill empty members
  | .array items => fillItems fill names empty items
  | other => .error other.mismatch

/-! ## Whole documents -/

/-- Read a document and take it apart. -/
def decode
    {Value : Type}
    (take : Json -> Except Fault Value)
    (symbols : Symbols) : Except Fault Value :=
  let (json, behind) := read symbols
  match take json, behind with
  | .error fault, _ => .error fault
  | .ok _, none => .error .malformed
  | .ok value, some rest =>
      if rest.all isBlank then .ok value else .error .malformed

end Json
end FlameProfile
