import Mathlib
import FlameProfile.Arithmetic.Rational
import FlameProfile.FirstSeen

/-!
# Tables with one entry for each key

Writing never repeats a key, so a table that was filled by writing says of each
key one thing: an entry is what is found at its key. What is found there after
many items were written is known by what was found before and by the items of the
key alone.
-/

namespace FlameProfile
namespace FirstSeen

variable {Key Value : Type} [DecidableEq Key] {key : Key} {value : Value}
  {table : FirstSeen Key Value}

/-! ## Distinct keys -/

/-- Where no key is repeated, an entry is what is found at its key. -/
theorem find?_eq_some_iff
    (distinct : (keys table).Nodup) :
    find? key table = some value ↔ (key, value) ∈ table := by
  induction table with
  | nil => simp
  | cons entry rest inductionHypothesis =>
      obtain ⟨other, old⟩ := entry
      obtain ⟨fresh, distinctRest⟩ := List.nodup_cons.mp distinct
      rw [find?]
      split
      next same =>
        subst same
        have absent : (other, value) ∉ rest := by
          intro member
          exact fresh (List.mem_map.mpr ⟨(other, value), member, rfl⟩)
        simp [absent, eq_comm]
      next different =>
        rw [inductionHypothesis distinctRest]
        simp [Ne.symm different]

/-- What is found is an entry. -/
theorem mem_of_find?_eq_some
    (found : find? key table = some value) :
    (key, value) ∈ table := by
  induction table with
  | nil => simp at found
  | cons entry rest inductionHypothesis =>
      obtain ⟨other, old⟩ := entry
      rw [find?] at found
      split at found
      next same =>
        rw [same, Option.some.inj found]
        exact List.mem_cons_self
      next => exact List.mem_cons_of_mem _ (inductionHypothesis found)

theorem mem_keys_of_find?_eq_some
    (found : find? key table = some value) :
    key ∈ keys table :=
  List.mem_map.mpr ⟨(key, value), mem_of_find?_eq_some found, rfl⟩

/-- Where no key is repeated, what is listed entry by entry is listed key by key. -/
theorem flatMap_eq_flatMap_keys
    {Item : Type}
    (distinct : (keys table).Nodup)
    (items : Key -> Value -> List Item) :
    (table.flatMap fun entry => items entry.1 entry.2) =
      (keys table).flatMap fun key => (find? key table).elim [] (items key) := by
  rw [keys, List.flatMap_map]
  apply List.flatMap_congr
  intro entry member
  rw [(find?_eq_some_iff distinct).mpr member]
  rfl

theorem nodup_keys_record
    (distinct : (keys table).Nodup)
    (key : Key)
    (first : Value)
    (change : Value -> Value) :
    (keys (record key first change table)).Nodup := by
  rw [keys_record]
  split
  next => exact distinct
  next absent =>
    refine List.nodup_append.mpr ⟨distinct, List.nodup_singleton key, ?_⟩
    rintro old member new isNew rfl
    rw [List.mem_singleton.mp isNew] at member
    exact absent member

theorem mem_keys_record
    (asked key : Key)
    (first : Value)
    (change : Value -> Value)
    (table : FirstSeen Key Value) :
    asked ∈ keys (record key first change table) ↔ asked ∈ keys table ∨ asked = key := by
  rw [keys_record]
  split
  next present =>
    refine ⟨Or.inl, ?_⟩
    rintro (old | rfl)
    · exact old
    · exact present
  next => rw [List.mem_append, List.mem_singleton]

/-- What holds of every entry holds after writing if it holds of what is written. -/
theorem forall_record
    (property : Key -> Value -> Prop)
    (holds : ∀ entry ∈ table, property entry.1 entry.2)
    {first : Value}
    (holdsFirst : property key first)
    {change : Value -> Value}
    (holdsChange : ∀ value, property key value → property key (change value)) :
    ∀ entry ∈ record key first change table, property entry.1 entry.2 := by
  induction table with
  | nil =>
      rw [record, List.forall_mem_singleton]
      exact holdsFirst
  | cons entry rest inductionHypothesis =>
      obtain ⟨entryHolds, restHolds⟩ := List.forall_mem_cons.mp holds
      obtain ⟨other, value⟩ := entry
      rw [record]
      split
      next same =>
        refine List.forall_mem_cons.mpr ⟨?_, restHolds⟩
        rw [same] at entryHolds ⊢
        exact holdsChange value entryHolds
      next => exact List.forall_mem_cons.mpr ⟨entryHolds, inductionHypothesis restHolds⟩

/-- Writing changed values into a table of changed values is writing and then changing
the values. -/
theorem map_record
    {Other : Type}
    (view : Value -> Other)
    (key : Key)
    (first : Value)
    {change : Value -> Value}
    {otherChange : Other -> Other}
    (commutes : ∀ value, otherChange (view value) = view (change value))
    (table : FirstSeen Key Value) :
    record key (view first) otherChange (table.map (Prod.map id view)) =
      (record key first change table).map (Prod.map id view) := by
  induction table with
  | nil => rfl
  | cons entry rest inductionHypothesis =>
      obtain ⟨other, value⟩ := entry
      by_cases same : other = key <;> simp [record, same, commutes, inductionHypothesis]

/-! ## What the values hold -/

/-- What all values hold together changes by a written value as that value does, in
whatever order. -/
theorem flatMap_record_perm
    {Item : Type}
    (items : Value -> List Item)
    (key : Key)
    (first : Value)
    (change : Value -> Value)
    (table : FirstSeen Key Value) :
    (((record key first change table).flatMap fun entry => items entry.2) ++
        (find? key table).elim [] items).Perm
      ((table.flatMap fun entry => items entry.2) ++
        items ((find? key table).elim first change)) := by
  induction table with
  | nil => simp [record]
  | cons entry rest inductionHypothesis =>
      obtain ⟨other, value⟩ := entry
      rw [record, find?]
      split
      next =>
        simp only [List.flatMap_cons, Option.elim_some]
        refine List.perm_append_comm.trans ?_
        rw [List.append_assoc]
        exact List.perm_append_comm.append_left (items value)
      next =>
        simp only [List.flatMap_cons, List.append_assoc]
        exact inductionHypothesis.append_left (items value)

/-! ## Writing many items -/

section Items

variable {Item : Type} (keyOf : Item -> Key) (first : Item -> Value)
  (change : Item -> Value -> Value)

theorem nodup_keys_foldl
    (items : List Item)
    (distinct : (keys table).Nodup) :
    (keys (items.foldl (fun written item =>
      record (keyOf item) (first item) (change item) written) table)).Nodup := by
  induction items generalizing table with
  | nil => exact distinct
  | cons item rest inductionHypothesis =>
      exact inductionHypothesis (nodup_keys_record distinct _ _ _)

theorem mem_keys_foldl (items : List Item) :
    key ∈ keys (items.foldl (fun written item =>
      record (keyOf item) (first item) (change item) written) table) ↔
        key ∈ keys table ∨ ∃ item ∈ items, keyOf item = key := by
  induction items generalizing table with
  | nil => simp
  | cons item rest inductionHypothesis =>
      rw [List.foldl_cons, inductionHypothesis, mem_keys_record]
      simp [or_assoc, eq_comm]

theorem forall_foldl
    (property : Key -> Value -> Prop)
    (holds : ∀ entry ∈ table, property entry.1 entry.2)
    (holdsFirst : ∀ item, property (keyOf item) (first item))
    (holdsChange : ∀ item value,
      property (keyOf item) value → property (keyOf item) (change item value))
    (items : List Item) :
    ∀ entry ∈ items.foldl (fun written item =>
      record (keyOf item) (first item) (change item) written) table,
        property entry.1 entry.2 := by
  induction items generalizing table with
  | nil => exact holds
  | cons item rest inductionHypothesis =>
      exact inductionHypothesis (forall_record property holds (holdsFirst item) (holdsChange item))

/-- What is found at a key is what the items of the key have written there, one after
the other. -/
theorem find?_foldl (items : List Item) :
    find? key (items.foldl (fun written item =>
      record (keyOf item) (first item) (change item) written) table) =
        (items.filter fun item => keyOf item = key).foldl
          (fun found item => some (found.elim (first item) (change item))) (find? key table) := by
  induction items generalizing table with
  | nil => rfl
  | cons item rest inductionHypothesis =>
      rw [List.foldl_cons, inductionHypothesis, List.filter_cons]
      by_cases same : keyOf item = key
      · subst same
        rw [find?_record_same, if_pos (decide_eq_true rfl), List.foldl_cons]
      · rw [find?_record_other (Ne.symm same), if_neg (by simpa using same)]

/-- A measure that every item of a key adds to adds up. -/
theorem measure_foldl
    (measure : Value -> Rat)
    (amount : Item -> Rat)
    (measureFirst : ∀ item, measure (first item) = amount item)
    (measureChange : ∀ item old, measure (change item old) = measure old + amount item)
    (items : List Item) :
    (find? key (items.foldl (fun written item =>
      record (keyOf item) (first item) (change item) written) table)).elim 0 measure =
        (find? key table).elim 0 measure +
          ((items.filter fun item => keyOf item = key).map amount).sum := by
  induction items generalizing table with
  | nil => simp
  | cons item rest inductionHypothesis =>
      rw [List.foldl_cons, inductionHypothesis, List.filter_cons]
      by_cases same : keyOf item = key
      · subst same
        rw [find?_record_same, if_pos (decide_eq_true rfl), List.map_cons, List.sum_cons,
          ← add_assoc]
        cases find? (keyOf item) table with
        | none => simp [measureFirst]
        | some old => simp [measureChange]
      · rw [find?_record_other (Ne.symm same), if_neg (by simpa using same)]

/-- A measure that no item changes stays as it is. -/
theorem measure_foldl_unchanged
    (measure : Value -> Rat)
    (measureFirst : ∀ item, measure (first item) = 0)
    (measureChange : ∀ item old, measure (change item old) = measure old)
    (items : List Item) :
    (find? key (items.foldl (fun written item =>
      record (keyOf item) (first item) (change item) written) table)).elim 0 measure =
        (find? key table).elim 0 measure := by
  rw [measure_foldl keyOf first change measure (fun _ => 0) measureFirst fun item old => by
    rw [measureChange, add_zero], List.map_const', List.sum_replicate, smul_zero, add_zero]

end Items

end FirstSeen
end FlameProfile
