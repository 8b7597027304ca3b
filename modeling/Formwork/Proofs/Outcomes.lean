import Mathlib.Logic.Basic

/-!
# Steps that may be refused

Reading, building and every operation answer a value or say what is wrong. What was answered in the end was answered
in each step on the way.
-/

set_option autoImplicit false

namespace Formwork

variable {Problem Value Result : Type}

/-- A step and what follows it succeed together. -/
theorem bind_eq_ok {action : Except Problem Value} {next : Value → Except Problem Result}
    {result : Result} :
    (action >>= next) = .ok result ↔ ∃ value, action = .ok value ∧ next value = .ok result := by
  cases action <;> simp [bind, Except.bind]

theorem pure_eq_ok {value result : Value} :
    (pure value : Except Problem Value) = .ok result ↔ value = result := by
  simp [pure, Except.pure]

theorem map_eq_ok {action : Except Problem Value} {change : Value → Result} {result : Result} :
    action.map change = .ok result ↔ ∃ value, action = .ok value ∧ change value = result := by
  cases action <;> simp [Except.map]

theorem exists_map_eq_ok {action : Except Problem Value} {change : Value → Result} :
    (∃ result, action.map change = .ok result) ↔ ∃ value, action = .ok value := by
  cases action <;> simp [Except.map]

/-- What follows a change of the answer may make the change itself. -/
theorem map_bind {Changed : Type} (action : Except Problem Value) (change : Value → Changed)
    (next : Changed → Except Problem Result) :
    (action.map change >>= next) = action >>= fun value => next (change value) := by
  cases action <;> rfl

/-- A change of the last answer may be made behind the first step. -/
theorem bind_map {Changed : Type} (action : Except Problem Value) (next : Value → Except Problem Result)
    (change : Result → Changed) :
    (action >>= next).map change = action >>= fun value => (next value).map change := by
  cases action <;> rfl

theorem toOption_eq_some {action : Except Problem Value} {value : Value} :
    action.toOption = some value ↔ action = .ok value := by
  cases action <;> simp [Except.toOption]

/-- Steps that all succeed, succeed one after the other. -/
theorem mapM_eq_ok {values : List Value} {step : Value → Except Problem Result} {result : Value → Result}
    (succeeds : ∀ value ∈ values, step value = .ok (result value)) :
    values.mapM step = .ok (values.map result) := by
  induction values with
  | nil => rfl
  | cons value rest ih =>
      obtain ⟨here, behind⟩ := List.forall_mem_cons.mp succeeds
      rw [List.mapM_cons, here, ih behind]
      rfl

end Formwork
