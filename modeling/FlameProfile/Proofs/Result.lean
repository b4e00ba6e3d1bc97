import Mathlib

/-!
# Results of mapped computations

When a computation that may fail yields a value or a fault, after what it yields has been
changed.
-/

namespace FlameProfile
namespace Result

variable {Fault Value Other : Type}

/-- A changed result is a value if the result was one. -/
@[simp] theorem map_eq_ok_iff
    {result : Except Fault Value}
    {function : Value -> Other}
    {value : Other} :
    result.map function = .ok value ↔ ∃ found, result = .ok found ∧ function found = value := by
  cases result <;> simp [Except.map]

/-- To change the value of a result leaves its fault. -/
@[simp] theorem map_eq_error_iff
    {result : Except Fault Value}
    {function : Value -> Other}
    {fault : Fault} :
    result.map function = .error fault ↔ result = .error fault := by
  cases result <;> simp [Except.map]

/-- To change the fault of a result leaves its value. -/
@[simp] theorem mapError_eq_ok_iff
    {result : Except Fault Value}
    {function : Fault -> Other}
    {value : Value} :
    result.mapError function = .ok value ↔ result = .ok value := by
  cases result <;> simp [Except.mapError]

/-- A result with changed faults has a fault if the result had one. -/
@[simp] theorem mapError_eq_error_iff
    {result : Except Fault Value}
    {function : Fault -> Other}
    {fault : Other} :
    result.mapError function = .error fault ↔
      ∃ refused, result = .error refused ∧ function refused = fault := by
  cases result <;> simp [Except.mapError]

/-- Without its fault a result is still the value that it was. -/
@[simp] theorem toOption_eq_some_iff
    {result : Except Fault Value}
    {value : Value} :
    result.toOption = some value ↔ result = .ok value := by
  cases result <;> simp [Except.toOption]

/-- Where every item yields a value, a list of items yields the list of the values. -/
theorem mapM_eq_ok
    {Item : Type}
    {items : List Item}
    {compute : Item -> Except Fault Value}
    {value : Item -> Value}
    (yields : ∀ item ∈ items, compute item = .ok (value item)) :
    items.mapM compute = .ok (items.map value) := by
  induction items with
  | nil => rfl
  | cons item rest inductionHypothesis =>
      obtain ⟨here, others⟩ := List.forall_mem_cons.mp yields
      rw [List.mapM_cons, here, inductionHypothesis others]
      rfl

end Result
end FlameProfile
