import Formwork.Proofs.Tree.Operations

/-!
# The pending submission

A tree waits for the outcome of at most one submission. Settling and all calls but submissions leave
what it waits for as it is, and a submission that is sent replaces it (`Cycle.perform_pending`).
While a tree waits, nothing but the outcome changes what it waits for (`Tree.pending_after`).
-/

set_option autoImplicit false

namespace Formwork

namespace Tree

variable (tree : Tree)

theorem isBusy_eq_false_iff {tree : Tree} : tree.isBusy = false ↔ tree.pending = none := by
  simp [isBusy]

@[simp]
theorem pending_change (place : Path) (edit : List String → Node → Node) :
    (tree.change place edit).pending = tree.pending := by
  unfold change
  split <;> rfl

theorem pending_validatePart (scope : Path) : (tree.validatePart scope).1.pending = tree.pending := by
  unfold validatePart
  split
  · exact tree.pending_change _ _
  · exact tree.pending_change _ _

theorem pending_applyMessages (key : String) (messages : List String) :
    (tree.applyMessages key messages).pending = tree.pending := by
  rw [applyMessages_eq]
  split
  · exact tree.pending_change _ _
  · split
    · exact tree.pending_change _ _
    · rfl

theorem pending_applyErrors (messages : Messages) : (tree.applyErrors messages).pending = tree.pending := by
  induction messages generalizing tree with
  | nil => rfl
  | cons entry rest ih => exact (ih _).trans (tree.pending_applyMessages entry.1 entry.2)

theorem pending_store (place : Path) (value : Value) : (tree.store place value).pending = tree.pending := by
  simp [store]

theorem pending_refused (outcome : Outcome) : (tree.refused outcome).pending = none := by
  unfold refused
  split
  · split
    · exact tree.idle.pending_applyErrors _
    · rfl
  · rfl

end Tree

namespace Cycle

variable (cycle : Cycle)

theorem pending_navigate {place : Path} {index : Nat} {after : Cycle} {arrived : Bool}
    (navigated : cycle.navigate place index = .ok (after, arrived)) :
    after.tree.pending = cycle.tree.pending := by
  obtain ⟨_, _, _, _, -, -, rfl⟩ := cycle.navigate_eq_ok navigated
  exact cycle.tree.pending_change _ _

theorem pending_execute (event : InducedEvent) :
    (cycle.execute event).1.tree.pending = cycle.tree.pending := by
  unfold execute
  split
  · exact cycle.tree.pending_change _ _
  · split
    · rfl
    · exact cycle.tree.pending_change _ _
  · split
    · rfl
    · split
      · rename_i navigated
        exact cycle.pending_navigate navigated
      · rfl

theorem pending_executeAll (events : List InducedEvent) :
    (executeAll events cycle).1.tree.pending = cycle.tree.pending := by
  induction events generalizing cycle with
  | nil => rfl
  | cons event rest ih =>
      rw [executeAll_cons]
      exact (ih _).trans (cycle.pending_execute event)

theorem pending_settle : cycle.settle.1.tree.pending = cycle.tree.pending :=
  pending_executeAll { cycle with tree := cycle.tree.refresh.latch } cycle.tree.refresh.rising

theorem pending_assign (button : Path) (target : Reference) (value : Option Value) :
    (cycle.assign button target value).1.tree.pending = cycle.tree.pending := by
  unfold assign
  split
  · exact (pending_settle _).trans (cycle.tree.pending_store _ _)
  · rfl

/-- What a tree waits for after a call: a request that was sent is waited for with the calls that are
left, and nothing else is changed. -/
inductive Waits (button : Path) (remaining reject : List Call) (before : Option Pending) :
    Option Pending → Ending → Prop where
  | completed : Waits button remaining reject before before .completed
  | failed : Waits button remaining reject before before .failed
  | suspended (method : Method) :
      Waits button remaining reject before (some ⟨button, method, remaining, reject⟩) .suspended

section Calls

variable (button : Path) (remaining reject : List Call)

theorem beginSubmission_waits (method : Method) :
    Waits button remaining reject cycle.tree.pending
      (cycle.beginSubmission button method remaining reject).1.tree.pending
      (cycle.beginSubmission button method remaining reject).2 := by
  unfold beginSubmission
  cases method with
  | post =>
      dsimp only
      split
      · exact .suspended .post
      · exact .failed
  | patch =>
      dsimp only
      split
      · exact .suspended .patch
      · rw [Tree.pending_validatePart]
        exact .failed

/-- A call that sends no request leaves what is waited for as it is. -/
theorem ending_waits {result : Cycle × Bool} (same : result.1.tree.pending = cycle.tree.pending) :
    Waits button remaining reject cycle.tree.pending (ending result).1.tree.pending (ending result).2 := by
  obtain ⟨after, passed⟩ := result
  change after.tree.pending = _ at same
  cases passed with
  | true =>
      change Waits _ _ _ _ after.tree.pending .completed
      rw [same]
      exact .completed
  | false =>
      change Waits _ _ _ _ after.tree.pending .failed
      rw [same]
      exact .failed

theorem perform_waits (call : Call) :
    Waits button remaining reject cycle.tree.pending
      (cycle.perform button remaining reject call).1.tree.pending
      (cycle.perform button remaining reject call).2 := by
  cases call with
  | activate arguments => exact cycle.ending_waits _ _ _ (pending_settle _)
  | submit => exact cycle.beginSubmission_waits _ _ _ _
  | submitPartial => exact cycle.beginSubmission_waits _ _ _ _
  | setFieldValue target source => exact cycle.ending_waits _ _ _ (cycle.pending_assign _ _ _)
  | deleteValue target => exact cycle.ending_waits _ _ _ (cycle.pending_assign _ _ _)
  | reset => exact .completed
  | disable => exact cycle.ending_waits _ _ _ ((pending_settle _).trans (cycle.tree.pending_change _ _))
  | enable => exact cycle.ending_waits _ _ _ ((pending_settle _).trans (cycle.tree.pending_change _ _))
  | proceed given =>
      unfold perform
      dsimp only
      split
      · exact .completed
      · exact .failed
  | clearErrors => exact .completed
  | noop => exact .completed

end Calls

end Cycle

namespace Tree

/-- While a tree waits for an outcome, no other operation changes what it waits for. -/
theorem pending_after {tree : Tree} {operation : Operation} (busy : tree.isBusy = true)
    (other : ∀ outcome, operation ≠ .complete outcome) :
    (tree.after operation).pending = tree.pending := by
  unfold after
  split
  · rename_i cycle done
    cases operation with
    | setValue path value => exact absurd (setValue_eq_ok done).1 (by simp [busy])
    | click path => exact absurd (click_eq_ok done).1 (by simp [busy])
    | addSibling path behind => exact absurd (addSibling_eq_ok done).1 (by simp [busy])
    | removeSibling path index => exact absurd (removeSibling_eq_ok done).1 (by simp [busy])
    | goToStep path index => exact absurd (goToStep_eq_ok done).1 (by simp [busy])
    | validate =>
        cases done
        rfl
    | validatePart scope =>
        cases done
        exact tree.pending_validatePart scope
    | applyErrors messages =>
        cases done
        exact tree.pending_applyErrors messages
    | reset => exact absurd (reset_eq_ok done).1 (by simp [busy])
    | complete outcome => exact absurd rfl (other outcome)
  · rfl

end Tree

end Formwork
