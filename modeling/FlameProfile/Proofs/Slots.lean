import Mathlib
import FlameProfile.FirstSeen

/-!
# Slots of lists

Items with keys can be kept in a list, in the order in which their keys first come, with an
index beside it that maps every key to a slot of the list. A slot that the list does not
have is an error. `InStep` says that the index maps the keys of the items to their slots
and maps nothing else. Whatever is put in keeps it so, no slot is ever out of range, and the
list is the one that comes of searching it item by item (`InStep.exists_update`).
-/

namespace FlameProfile

/-- A slot that a list does not have. -/
structure OutOfRange where
  slot : Nat
  length : Nat
  deriving DecidableEq

namespace Slot

variable {Item : Type}

/-- The item in a slot. -/
def reach
    (items : List Item)
    (slot : Nat) : Except OutOfRange Item :=
  match items[slot]? with
  | some item => .ok item
  | none => .error ⟨slot, items.length⟩

/-- Change the item in a slot. -/
def amend
    (items : List Item)
    (slot : Nat)
    (change : Item -> Item) : Except OutOfRange (List Item) :=
  if slot < items.length then .ok (items.modify slot change) else .error ⟨slot, items.length⟩

theorem getElem?_append_singleton
    (items : List Item)
    (last : Item)
    (slot : Nat) :
    (items ++ [last])[slot]? = if slot = items.length then some last else items[slot]? := by
  rcases lt_trichotomy slot items.length with inside | rfl | beyond
  · rw [List.getElem?_append_left inside, if_neg inside.ne]
  · rw [List.getElem?_concat_length, if_pos rfl]
  · rw [if_neg beyond.ne', List.getElem?_eq_none beyond.le, List.getElem?_eq_none]
    simpa using beyond

theorem reach_of_getElem?
    {items : List Item}
    {slot : Nat}
    {item : Item}
    (found : items[slot]? = some item) :
    reach items slot = .ok item := by
  rw [reach, found]

theorem amend_of_lt
    {items : List Item}
    {slot : Nat}
    (inside : slot < items.length)
    (change : Item -> Item) :
    amend items slot change = .ok (items.modify slot change) :=
  if_pos inside

/-- Slots that a list has are all reached. -/
theorem mapM_reach
    {items : List Item}
    {slots : List Nat}
    (inside : ∀ slot ∈ slots, slot < items.length) :
    slots.mapM (reach items) = .ok (slots.filterMap fun slot => items[slot]?) := by
  induction slots with
  | nil => rfl
  | cons slot rest inductionHypothesis =>
      have found := List.getElem?_eq_getElem (inside slot List.mem_cons_self)
      have others := inductionHypothesis fun other member =>
        inside other (List.mem_cons_of_mem slot member)
      rw [List.mapM_cons, reach_of_getElem? found, others, List.filterMap_cons_some found]
      rfl

end Slot

/-! ## Searching item by item -/

section Upsert

variable {Key Item : Type}

/-- Change the first item that is asked for, or add one at the end. -/
def upsert
    (isAsked : Item -> Bool)
    (first : Item)
    (change : Item -> Item) : List Item -> List Item
  | [] => [change first]
  | item :: rest =>
      if isAsked item then change item :: rest else item :: upsert isAsked first change rest

/-- Writing to a table is changing its entry. -/
theorem FirstSeen.record_eq_upsert
    {Value : Type}
    [DecidableEq Key]
    (key : Key)
    (first : Value)
    (change : Value -> Value)
    (table : FirstSeen Key Value) :
    FirstSeen.record key (change first) change table =
      upsert (fun entry => entry.1 = key) (key, first) (Prod.map id change) table := by
  induction table with
  | nil => rfl
  | cons entry rest inductionHypothesis =>
      obtain ⟨other, value⟩ := entry
      rw [FirstSeen.record, upsert, inductionHypothesis]
      by_cases same : other = key <;> simp [same]

theorem FirstSeen.find?_eq_map_find?
    {Value : Type}
    [DecidableEq Key]
    (key : Key)
    (table : FirstSeen Key Value) :
    FirstSeen.find? key table =
      (List.find? (fun entry => decide (entry.1 = key)) table).map Prod.snd := by
  induction table with
  | nil => rfl
  | cons entry rest inductionHypothesis =>
      obtain ⟨other, value⟩ := entry
      rw [FirstSeen.find?, inductionHypothesis, List.find?_cons]
      by_cases same : other = key <;> simp [same]

variable [DecidableEq Key] {keyOf : Item -> Key} {key : Key} {items : List Item}

theorem upsert_of_not_mem
    (isNew : key ∉ items.map keyOf)
    (first : Item)
    (change : Item -> Item) :
    upsert (fun item => keyOf item = key) first change items = items ++ [change first] := by
  induction items with
  | nil => rfl
  | cons item rest inductionHypothesis =>
      rw [List.map_cons, List.mem_cons, not_or] at isNew
      rw [upsert, if_neg (by simpa using Ne.symm isNew.1), inductionHypothesis isNew.2,
        List.cons_append]

/-- Among items of different keys only the one in the slot of the key is changed. -/
theorem upsert_of_getElem?
    (distinct : (items.map keyOf).Nodup)
    {slot : Nat}
    (found : (items.map keyOf)[slot]? = some key)
    (first : Item)
    (change : Item -> Item) :
    upsert (fun item => keyOf item = key) first change items = items.modify slot change := by
  induction items generalizing slot with
  | nil => simp at found
  | cons item rest inductionHypothesis =>
      rw [List.map_cons, List.nodup_cons] at distinct
      cases slot with
      | zero =>
          rw [List.map_cons, List.getElem?_cons_zero, Option.some_inj] at found
          rw [upsert, if_pos (decide_eq_true found), List.modify_zero_cons]
      | succ slot =>
          rw [List.map_cons, List.getElem?_cons_succ] at found
          have different : ¬ keyOf item = key := by
            rintro rfl
            exact distinct.1 (List.mem_of_getElem? found)
          rw [upsert, if_neg (by simpa using different), inductionHypothesis distinct.2 found,
            List.modify_succ_cons]

/-- Changing the item of a key keeps the keys; a new key comes last. -/
theorem map_upsert
    {first : Item}
    {change : Item -> Item}
    (isFirst : keyOf (change first) = key)
    (keeps : ∀ item, keyOf item = key → keyOf (change item) = key) :
    (upsert (fun item => keyOf item = key) first change items).map keyOf =
      if key ∈ items.map keyOf then items.map keyOf else items.map keyOf ++ [key] := by
  induction items with
  | nil => simp [upsert, isFirst]
  | cons item rest inductionHypothesis =>
      by_cases same : keyOf item = key
      · simp [upsert, same, keeps item same]
      · have elsewhere : key ∈ keyOf item :: rest.map keyOf ↔ key ∈ rest.map keyOf := by
          rw [List.mem_cons, or_iff_right (Ne.symm same)]
        rw [upsert, if_neg (by simpa using same), List.map_cons, inductionHypothesis,
          List.map_cons]
        simp only [elsewhere]
        split <;> rfl

/-- An item that takes the place of another one is found under its key, and every other key
finds what it found. -/
theorem find?_upsert_const
    (item : Item)
    (asked : Key) :
    ((upsert (fun other => keyOf other = keyOf item) item (fun _ => item) items).find?
        fun other => keyOf other = asked) =
      if keyOf item = asked then some item else items.find? fun other => keyOf other = asked := by
  induction items with
  | nil => by_cases same : keyOf item = asked <;> simp [upsert, same]
  | cons other rest inductionHypothesis =>
      by_cases taken : keyOf other = keyOf item
      · by_cases same : keyOf item = asked <;> simp [upsert, taken, same]
      · rw [upsert, if_neg (by simpa using taken), List.find?_cons, List.find?_cons,
          inductionHypothesis]
        by_cases same : keyOf item = asked
        · have different : keyOf other ≠ asked := same ▸ taken
          simp [same, different]
        · simp [same]

/-- Put items into a list one after the other, each in the place of the one with its key. -/
def putAll
    (keyOf : Item -> Key)
    (items : List Item) : List Item :=
  items.foldl (fun kept item =>
    upsert (fun other => keyOf other = keyOf item) item (fun _ => item) kept) []

theorem putAll_append_singleton
    (keyOf : Item -> Key)
    (front : List Item)
    (item : Item) :
    putAll keyOf (front ++ [item]) =
      upsert (fun other => keyOf other = keyOf item) item (fun _ => item)
        (putAll keyOf front) := by
  rw [putAll, List.foldl_append]
  rfl

/-- The keys of what was put in stand in the order in which they first came. -/
theorem map_putAll (items : List Item) :
    (putAll keyOf items).map keyOf = (items.map keyOf).eraseDups := by
  induction items using List.reverseRecOn with
  | nil => rfl
  | append_singleton front item inductionHypothesis =>
      have placed : (upsert (fun other => keyOf other = keyOf item) item (fun _ => item)
          (putAll keyOf front)).map keyOf = _ := map_upsert rfl fun _ _ => rfl
      rw [putAll_append_singleton, placed, inductionHypothesis, List.map_append,
        List.map_singleton, List.eraseDups_append]
      simp only [List.mem_eraseDups]
      by_cases known : keyOf item ∈ front.map keyOf
      · simp only [known, List.removeAll, List.filter_cons, List.elem_eq_mem]
        simp
      · simp only [known, List.removeAll, List.filter_cons, List.elem_eq_mem]
        simp [List.eraseDups_cons]

/-- What is found under a key is the last item that was put in under it. -/
theorem find?_putAll
    (items : List Item)
    (asked : Key) :
    ((putAll keyOf items).find? fun item => keyOf item = asked) =
      items.reverse.find? fun item => keyOf item = asked := by
  induction items using List.reverseRecOn with
  | nil => rfl
  | append_singleton front item inductionHypothesis =>
      rw [putAll_append_singleton, find?_upsert_const, inductionHypothesis, List.reverse_concat,
        List.find?_cons]
      by_cases same : keyOf item = asked <;> simp [same]

/-- Among items of different keys a key finds the item that has it. -/
theorem find?_key_eq_some_iff
    (distinct : (items.map keyOf).Nodup)
    {item : Item} :
    (items.find? fun item => keyOf item = key) = some item ↔ item ∈ items ∧ keyOf item = key := by
  constructor
  · intro found
    exact ⟨List.mem_of_find?_eq_some found, by simpa using List.find?_some found⟩
  · rintro ⟨member, isKey⟩
    obtain ⟨other, found⟩ : ∃ other, (items.find? fun item => keyOf item = key) = some other :=
      Option.isSome_iff_exists.mp (List.find?_isSome.mpr ⟨item, member, decide_eq_true isKey⟩)
    have otherKey : keyOf other = key := by simpa using List.find?_some found
    rw [found, List.inj_on_of_nodup_map distinct (List.mem_of_find?_eq_some found) member
      (otherKey.trans isKey.symm)]

end Upsert

/-! ## Lists with an index -/

/-- A list of items with an index of their keys. -/
structure Indexed (Key Item : Type) [DecidableEq Key] [Hashable Key] where
  items : List Item
  slots : Std.HashMap Key Nat

namespace Indexed

variable {Key Item : Type} [DecidableEq Key] [Hashable Key]

/-- No items. -/
def empty : Indexed Key Item where
  items := []
  slots := ∅

/-- The slot of a key; a new key gets a slot at the end, with a first item in it. -/
def reserve
    (table : Indexed Key Item)
    (key : Key)
    (first : Item) : Nat × Indexed Key Item :=
  match table.slots[key]? with
  | some slot => (slot, table)
  | none =>
      (table.items.length, ⟨table.items ++ [first], table.slots.insert key table.items.length⟩)

/-- Change the item of a key, which is a first item if the key is new. -/
def update
    (table : Indexed Key Item)
    (key : Key)
    (first : Item)
    (change : Item -> Item) : Except OutOfRange (Indexed Key Item) :=
  let (slot, reserved) := table.reserve key first
  (Slot.amend reserved.items slot change).map fun items => ⟨items, reserved.slots⟩

/-- The item of a key. -/
def find?
    (table : Indexed Key Item)
    (key : Key) : Except OutOfRange (Option Item) :=
  match table.slots[key]? with
  | none => .ok none
  | some slot => (Slot.reach table.items slot).map some

/-- The index maps the keys of the items to their slots, and maps nothing else. -/
def InStep
    (keyOf : Item -> Key)
    (table : Indexed Key Item) : Prop :=
  ∀ (key : Key) (slot : Nat), table.slots[key]? = some slot ↔
    (table.items.map keyOf)[slot]? = some key

variable {keyOf : Item -> Key} {table : Indexed Key Item}

theorem inStep_empty : (empty : Indexed Key Item).InStep keyOf := by
  intro key slot
  simp [empty]

/-- Items in step with an index have different keys. -/
theorem InStep.nodup_keys (inStep : table.InStep keyOf) : (table.items.map keyOf).Nodup := by
  rw [List.nodup_iff_getElem?_ne_getElem?]
  intro first second less inside same
  have there := List.getElem?_eq_getElem inside
  have sameSlot := ((inStep _ first).mpr (same.trans there)).symm.trans ((inStep _ second).mpr there)
  exact absurd (Option.some_inj.mp sameSlot) less.ne

theorem InStep.slots_eq_none_iff
    (inStep : table.InStep keyOf)
    (key : Key) :
    table.slots[key]? = none ↔ key ∉ table.items.map keyOf := by
  rw [List.mem_iff_getElem?, Option.eq_none_iff_forall_ne_some, not_exists]
  exact forall_congr' fun slot => not_congr (inStep key slot)

/-- What is changed under its key stays in step. -/
theorem InStep.modify
    (inStep : table.InStep keyOf)
    {slot : Nat}
    {change : Item -> Item}
    (keeps : ∀ item, table.items[slot]? = some item → keyOf (change item) = keyOf item) :
    (Indexed.mk (table.items.modify slot change) table.slots).InStep keyOf := by
  have sameKeys : (table.items.modify slot change).map keyOf = table.items.map keyOf := by
    apply List.ext_getElem (by simp)
    intro place inside _
    rw [List.length_map, List.length_modify] at inside
    rw [List.getElem_map, List.getElem_map, List.getElem_modify]
    split
    next here =>
      subst here
      exact keeps _ (List.getElem?_eq_getElem inside)
    next => rfl
  intro key other
  rw [sameKeys]
  exact inStep key other

/-- A key without a slot gets the next one. -/
theorem InStep.append
    (inStep : table.InStep keyOf)
    {first : Item}
    (isNew : keyOf first ∉ table.items.map keyOf) :
    (Indexed.mk (table.items ++ [first])
      (table.slots.insert (keyOf first) table.items.length)).InStep keyOf := by
  have beyond : (table.items.map keyOf)[table.items.length]? = none :=
    List.getElem?_eq_none (List.length_map keyOf).le
  intro key slot
  rw [Std.HashMap.getElem?_insert, List.map_append, List.map_singleton,
    Slot.getElem?_append_singleton, List.length_map]
  by_cases same : keyOf first = key
  · rw [if_pos (beq_iff_eq.mpr same)]
    by_cases isLast : slot = table.items.length
    · simp [isLast, same]
    · rw [if_neg isLast]
      refine iff_of_false (fun equal => isLast (Option.some_inj.mp equal).symm) ?_
      intro found
      exact isNew (same ▸ List.mem_of_getElem? found)
  · rw [if_neg (fun equal => same (beq_iff_eq.mp equal)), inStep]
    by_cases isLast : slot = table.items.length
    · rw [isLast, beyond, if_pos rfl]
      exact iff_of_false (by simp) (fun equal => same (Option.some_inj.mp equal))
    · rw [if_neg isLast]

/-- An item is put in under its key without reaching out of range, where searching the
items one by one puts it. -/
theorem InStep.exists_update
    (inStep : table.InStep keyOf)
    {key : Key}
    {first : Item}
    (isFirst : keyOf first = key)
    {change : Item -> Item}
    (keeps : ∀ item, keyOf item = key → keyOf (change item) = key) :
    ∃ next, table.update key first change = .ok next ∧
      next.InStep keyOf ∧
      next.items = upsert (fun item => keyOf item = key) first change table.items := by
  cases known : table.slots[key]? with
  | some slot =>
      have found := (inStep key slot).mp known
      have inside := (List.getElem?_eq_some_iff.mp found).1
      rw [List.length_map] at inside
      have changed : ∀ item, table.items[slot]? = some item →
          keyOf (change item) = keyOf item := by
        intro item inSlot
        rw [List.getElem?_map, inSlot, Option.map_some, Option.some_inj] at found
        exact (keeps item found).trans found.symm
      refine ⟨⟨table.items.modify slot change, table.slots⟩, ?_, inStep.modify changed, ?_⟩
      · simp only [update, reserve, known, Slot.amend_of_lt inside]
        rfl
      · exact (upsert_of_getElem? inStep.nodup_keys found first change).symm
  | none =>
      have isNew := (inStep.slots_eq_none_iff key).mp known
      have inside : table.items.length < (table.items ++ [first]).length := by simp
      have appended : (table.items ++ [first]).modify table.items.length change =
          table.items ++ [change first] := by
        simp [List.modify_eq_take_drop]
      subst isFirst
      have changed : ∀ item, (table.items ++ [first])[table.items.length]? = some item →
          keyOf (change item) = keyOf item := by
        intro item inSlot
        rw [List.getElem?_concat_length, Option.some_inj] at inSlot
        exact inSlot ▸ keeps first rfl
      refine ⟨_, ?_, (inStep.append isNew).modify changed, ?_⟩
      · simp only [update, reserve, known, Slot.amend_of_lt inside]
        rfl
      · rw [upsert_of_not_mem isNew, appended]

/-- Looking a key up reaches the item that searching the items one by one finds. -/
theorem InStep.find?_eq
    (inStep : table.InStep keyOf)
    (key : Key) :
    table.find? key = .ok (table.items.find? fun item => keyOf item = key) := by
  rw [Indexed.find?]
  cases known : table.slots[key]? with
  | none =>
      have isNew := (inStep.slots_eq_none_iff key).mp known
      rw [List.find?_eq_none.mpr]
      intro item member asked
      exact isNew (List.mem_map.mpr ⟨item, member, of_decide_eq_true asked⟩)
  | some slot =>
      have found := (inStep key slot).mp known
      rw [List.getElem?_map, Option.map_eq_some_iff] at found
      obtain ⟨item, inSlot, isKey⟩ := found
      have isFound := (find?_key_eq_some_iff inStep.nodup_keys).mpr
        ⟨List.mem_of_getElem? inSlot, isKey⟩
      rw [isFound]
      exact congrArg (Except.map some) (Slot.reach_of_getElem? inSlot)

/-- Items can be put in one after the other, each in the place of the one with its key. -/
theorem exists_foldlM_update
    (keyOf : Item -> Key)
    (items : List Item) :
    ∃ table : Indexed Key Item,
      items.foldlM (fun table item => table.update (keyOf item) item fun _ => item) empty =
          .ok table ∧
        table.InStep keyOf ∧ table.items = putAll keyOf items := by
  induction items using List.reverseRecOn with
  | nil => exact ⟨empty, rfl, inStep_empty, rfl⟩
  | append_singleton front item inductionHypothesis =>
      obtain ⟨table, built, inStep, same⟩ := inductionHypothesis
      obtain ⟨next, updated, nextInStep, nextItems⟩ :=
        inStep.exists_update (rfl : keyOf item = keyOf item) (fun _ _ => rfl)
      refine ⟨next, ?_, nextInStep, ?_⟩
      · rw [List.foldlM_append, built]
        exact (bind_pure (table.update _ _ _)).trans updated
      · rw [nextItems, same, putAll_append_singleton]

end Indexed
end FlameProfile
