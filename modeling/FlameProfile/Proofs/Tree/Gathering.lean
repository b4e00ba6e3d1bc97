import Mathlib
import FlameProfile.Proofs.FirstSeen
import FlameProfile.Proofs.Tree.Extent
import FlameProfile.Tree.Difference

/-!
# Gathering stacks by path

Stacks are gathered in tables with one entry for each path: coalescing adds up
the stacks of a path, pairing does the same for the target and notes the weight
of the baseline beside it. A table that gathers a list has the paths of the list
and gives every kind of path the weight that it has in the list. A stack of the
baseline is gathered as a stack without weight.
-/

namespace FlameProfile
namespace Stack

/-- The stack without its weight. -/
def unweighted (stack : Stack Rat) : Stack Rat :=
  { stack with weight := 0 }

theorem weightWhere_append
    (holds : List String -> Bool)
    (first second : List (Stack Rat)) :
    weightWhere holds (first ++ second) =
      weightWhere holds first + weightWhere holds second := by
  rw [weightWhere, List.filter_append, List.map_append, List.sum_append]
  rfl

@[simp] theorem weightWhere_unweighted
    (holds : List String -> Bool)
    (collapsed : List (Stack Rat)) :
    weightWhere holds (collapsed.map unweighted) = 0 := by
  induction collapsed with
  | nil => rfl
  | cons stack rest inductionHypothesis =>
      rw [List.map_cons, weightWhere_cons, inductionHypothesis, unweighted, ite_self, add_zero]

variable {Value : Type} {stackOf : Value -> Stack Rat}

/-- A table by path holds what the stacks of a list add up to. -/
structure Gathers
    (stackOf : Value -> Stack Rat)
    (table : FirstSeen (List String) Value)
    (gathered : List (Stack Rat)) : Prop where
  path : ∀ entry ∈ table, (stackOf entry.2).path = entry.1
  mem_keys : ∀ path, path ∈ FirstSeen.keys table ↔ ∃ stack ∈ gathered, stack.path = path
  weight : ∀ holds, weightWhere holds (table.map fun entry => stackOf entry.2) =
    weightWhere holds gathered

/-- An empty table gathers nothing. -/
theorem gathers_nil : Gathers stackOf [] [] where
  path := by simp
  mem_keys := by simp [FirstSeen.keys]
  weight _ := rfl

section Record

variable {table : FirstSeen (List String) Value} {first : Value} {change : Value -> Value}
  {added : Stack Rat}

theorem path_record
    (indexed : ∀ entry ∈ table, (stackOf entry.2).path = entry.1)
    (firstPath : (stackOf first).path = added.path)
    (changePath : ∀ value, (stackOf (change value)).path = (stackOf value).path) :
    ∀ entry ∈ FirstSeen.record added.path first change table,
      (stackOf entry.2).path = entry.1 :=
  FirstSeen.forall_record (fun path value => (stackOf value).path = path) indexed firstPath
    fun value path => (changePath value).trans path

theorem weightWhere_record
    (holds : List String -> Bool)
    (indexed : ∀ entry ∈ table, (stackOf entry.2).path = entry.1)
    (firstPath : (stackOf first).path = added.path)
    (firstWeight : (stackOf first).weight = added.weight)
    (changePath : ∀ value, (stackOf (change value)).path = (stackOf value).path)
    (changeWeight : ∀ value,
      (stackOf (change value)).weight = (stackOf value).weight + added.weight) :
    weightWhere holds
        ((FirstSeen.record added.path first change table).map fun entry => stackOf entry.2) =
      weightWhere holds (table.map fun entry => stackOf entry.2) + weightWhere holds [added] := by
  induction table with
  | nil =>
      rw [FirstSeen.record, List.map_singleton, weightWhere_cons, weightWhere_cons, firstPath,
        firstWeight]
      exact (zero_add _).symm
  | cons entry rest inductionHypothesis =>
      obtain ⟨entryIndexed, restIndexed⟩ := List.forall_mem_cons.mp indexed
      obtain ⟨key, value⟩ := entry
      rw [FirstSeen.record]
      split
      next same =>
        have pathEq : (stackOf value).path = added.path := entryIndexed.trans same
        rw [List.map_cons, List.map_cons, weightWhere_cons, weightWhere_cons, weightWhere_cons,
          changePath, changeWeight, pathEq, weightWhere_nil]
        split_ifs <;> ring
      next different =>
        rw [List.map_cons, List.map_cons, weightWhere_cons, inductionHypothesis restIndexed,
          weightWhere_cons holds (stackOf value), add_assoc]

/-- Taking a stack into account gathers it. -/
theorem Gathers.record
    {gathered : List (Stack Rat)}
    (gathers : Gathers stackOf table gathered)
    (added : Stack Rat)
    (firstPath : (stackOf first).path = added.path)
    (firstWeight : (stackOf first).weight = added.weight)
    (changePath : ∀ value, (stackOf (change value)).path = (stackOf value).path)
    (changeWeight : ∀ value,
      (stackOf (change value)).weight = (stackOf value).weight + added.weight) :
    Gathers stackOf (FirstSeen.record added.path first change table) (gathered ++ [added]) where
  path := path_record gathers.path firstPath changePath
  mem_keys := by
    intro path
    have known := gathers.mem_keys
    rw [FirstSeen.keys_record]
    split
    next present =>
      rw [known] at present ⊢
      obtain ⟨old, oldMember, oldPath⟩ := present
      constructor
      · rintro ⟨stack, member, pathEq⟩
        exact ⟨stack, List.mem_append_left [added] member, pathEq⟩
      · rintro ⟨stack, member, pathEq⟩
        rcases List.mem_append.mp member with inOld | isNew
        · exact ⟨stack, inOld, pathEq⟩
        · rw [List.mem_singleton.mp isNew] at pathEq
          exact ⟨old, oldMember, oldPath.trans pathEq⟩
    next absent =>
      rw [List.mem_append, known, List.mem_singleton]
      simp [or_and_right, exists_or, eq_comm]
  weight holds := by
    rw [weightWhere_record holds gathers.path firstPath firstWeight changePath changeWeight,
      gathers.weight, weightWhere_append]

end Record

/-- The stacks of a table, in any order, have the paths of what was gathered. -/
theorem Gathers.exists_path_iff
    {table : FirstSeen (List String) Value}
    {gathered : List (Stack Rat)}
    (gathers : Gathers stackOf table gathered)
    (holds : List String -> Prop) :
    (∃ entry ∈ table, holds (stackOf entry.2).path) ↔ ∃ stack ∈ gathered, holds stack.path := by
  constructor
  · rintro ⟨entry, member, kind⟩
    have inKeys : entry.1 ∈ FirstSeen.keys table := List.mem_map_of_mem member
    obtain ⟨stack, stackMember, pathEq⟩ := (gathers.mem_keys entry.1).mp inKeys
    rw [gathers.path entry member, ← pathEq] at kind
    exact ⟨stack, stackMember, kind⟩
  · rintro ⟨stack, member, kind⟩
    have inKeys := (gathers.mem_keys stack.path).mpr ⟨stack, member, rfl⟩
    obtain ⟨entry, entryMember, keyEq⟩ := List.mem_map.mp inKeys
    refine ⟨entry, entryMember, ?_⟩
    rwa [gathers.path entry entryMember, keyEq]

/-! ## The tables of the library -/

/-- Coalescing gathers the stacks. -/
theorem gathers_coalesce (collapsed : List (Stack Rat)) :
    Gathers id (coalesce collapsed) collapsed := by
  induction collapsed using List.reverseRecOn with
  | nil => exact gathers_nil
  | append_singleton front stack inductionHypothesis =>
      rw [coalesce, List.foldl_append]
      exact inductionHypothesis.record stack rfl rfl (fun _ => rfl) (fun _ => rfl)

theorem gathers_addTarget (target : List (Stack Rat)) :
    Gathers PairedStack.target (target.foldl PairedStack.addTarget []) target := by
  induction target using List.reverseRecOn with
  | nil => exact gathers_nil
  | append_singleton front stack inductionHypothesis =>
      rw [List.foldl_append]
      exact inductionHypothesis.record stack rfl rfl (fun _ => rfl) (fun _ => rfl)

/-- Pairing gathers the target, and the baseline without its weights. -/
theorem gathers_addBaseline (baseline target : List (Stack Rat)) :
    Gathers PairedStack.target
      (baseline.foldl PairedStack.addBaseline (target.foldl PairedStack.addTarget []))
      (target ++ baseline.map unweighted) := by
  induction baseline using List.reverseRecOn with
  | nil =>
      rw [List.map_nil, List.append_nil]
      exact gathers_addTarget target
  | append_singleton front stack inductionHypothesis =>
      rw [List.foldl_append, List.map_append, List.map_singleton, ← List.append_assoc]
      exact inductionHypothesis.record stack.unweighted rfl rfl (fun _ => rfl)
        (fun _ => (add_zero _).symm)

end Stack
end FlameProfile
