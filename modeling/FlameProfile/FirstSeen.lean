/-!
# Tables in order of first appearance

A table holds one value for each of its keys and lists the keys in the order
in which they first appeared. Writing to a key that is present changes its
value in place; writing to a new key adds it at the end.
-/

namespace FlameProfile

/-- Keys with their values, in the order in which the keys first appeared. -/
abbrev FirstSeen (Key Value : Type) := List (Key × Value)

namespace FirstSeen

variable {Key Value : Type} [DecidableEq Key]

/-- The value at a key. -/
def find?
    (key : Key) : FirstSeen Key Value -> Option Value
  | [] => none
  | (other, value) :: rest =>
      if other = key then some value else find? key rest

/-- Change the value at a key, or add the key with a first value. -/
def record
    (key : Key)
    (first : Value)
    (change : Value -> Value) : FirstSeen Key Value -> FirstSeen Key Value
  | [] => [(key, first)]
  | (other, value) :: rest =>
      if other = key then
        (other, change value) :: rest
      else
        (other, value) :: record key first change rest

/-- The keys, in order of first appearance. -/
def keys (table : FirstSeen Key Value) : List Key :=
  table.map Prod.fst

@[simp] theorem find?_nil (key : Key) :
    find? key ([] : FirstSeen Key Value) = none := rfl

/-- A written key holds the changed value, or the first one if it was new. -/
@[simp] theorem find?_record_same
    (key : Key)
    (first : Value)
    (change : Value -> Value)
    (table : FirstSeen Key Value) :
    find? key (record key first change table) =
      some ((find? key table).elim first change) := by
  induction table with
  | nil => simp [record, find?]
  | cons entry rest induction =>
      obtain ⟨other, value⟩ := entry
      by_cases same : other = key <;> simp [record, find?, same, induction]

/-- Writing to one key leaves the value at every other key. -/
theorem find?_record_other
    {key asked : Key}
    (different : asked ≠ key)
    (first : Value)
    (change : Value -> Value)
    (table : FirstSeen Key Value) :
    find? asked (record key first change table) = find? asked table := by
  induction table with
  | nil => simp [record, find?, Ne.symm different]
  | cons entry rest induction =>
      obtain ⟨other, value⟩ := entry
      by_cases same : other = key
      · subst same
        simp [record, find?, Ne.symm different]
      · simp [record, find?, same, induction]

/-- Writing keeps the keys and their order, and adds a new key at the end. -/
theorem keys_record
    (key : Key)
    (first : Value)
    (change : Value -> Value)
    (table : FirstSeen Key Value) :
    keys (record key first change table) =
      if key ∈ keys table then keys table else keys table ++ [key] := by
  induction table with
  | nil => simp [record, keys]
  | cons entry rest induction =>
      obtain ⟨other, value⟩ := entry
      by_cases same : other = key
      · simp [record, keys, same]
      · by_cases present : key ∈ rest.map Prod.fst <;>
          simp_all [record, keys, Ne.symm same]

end FirstSeen
end FlameProfile
