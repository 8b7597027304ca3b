import Formwork.Proofs.Tree.Pending

/-!
# Recording the calls of a pipeline

A click and the delivery of an outcome are repeated here with a record of the calls: a mark for
every call that starts, and one for every call that stops, with whether it succeeded. The call of a
submission that was sent starts in one operation and stops in the one that delivers its outcome.

Recording changes nothing else (`Tree.traceClick_map_fst`, `Tree.traceComplete_map_fst`).
-/

set_option autoImplicit false

namespace Formwork

/-- What happens to a call. -/
inductive Mark where
  | start (call : Call)
  | stop (passed : Bool)

namespace Cycle

variable (button : Path)

/-- Runs a chain and records its calls. -/
def traceChain (reject : List Call) : List Call → Cycle → (Cycle × Ending) × List Mark
  | [], cycle => ((cycle, .completed), [])
  | call :: rest, cycle =>
    match cycle.perform button rest reject call with
    | (after, .completed) =>
      let later := traceChain reject rest after
      (later.1, .start call :: .stop true :: later.2)
    | (after, .suspended) => ((after, .suspended), [.start call])
    | (after, .failed) => ((after, .failed), [.start call, .stop false])

/-- Runs a chain, and the reject chain if it fails, and records their calls. -/
def traceRun (chain reject : List Call) (cycle : Cycle) : Cycle × List Mark :=
  match traceChain button reject chain cycle with
  | ((after, .failed), marks) =>
    let later := traceChain button [] reject after
    (later.1.1, marks ++ later.2)
  | ((after, _), marks) => (after, marks)

theorem traceChain_fst (reject chain : List Call) (cycle : Cycle) :
    (traceChain button reject chain cycle).1 = cycle.runChain button reject chain := by
  induction chain generalizing cycle with
  | nil => rfl
  | cons call rest ih =>
      unfold traceChain runChain
      generalize cycle.perform button rest reject call = performed
      obtain ⟨after, ending⟩ := performed
      cases ending with
      | completed => exact ih after
      | suspended => rfl
      | failed => rfl

theorem traceRun_fst (chain reject : List Call) (cycle : Cycle) :
    (traceRun button chain reject cycle).1 = cycle.run button chain reject := by
  have first := traceChain_fst button reject chain cycle
  unfold traceRun run
  rw [← first]
  generalize traceChain button reject chain cycle = traced
  obtain ⟨⟨after, ending⟩, marks⟩ := traced
  cases ending with
  | completed => rfl
  | suspended => rfl
  | failed => exact congrArg Prod.fst (traceChain_fst button [] reject after)

end Cycle

namespace Tree

/-- Clicks a button and records the calls. -/
def traceClick (tree : Tree) (path : Path) : Except Rejection (Cycle × List Mark) :=
  if tree.isBusy then .error .busy
  else
    match tree.field? path with
    | none => .error (.unknownPath path)
    | some field =>
      match field.button with
      | none => .error (.notAnActivator path)
      | some button =>
        if field.hidden then .error (.hidden path)
        else if field.disabled then .error (.disabled path)
        else .ok ((Cycle.start tree).traceRun path button.pipeline.success button.pipeline.reject)

/-- Delivers the outcome of the pending submission and records the calls. The first mark is that the
call of the submission stops. -/
def traceComplete (tree : Tree) (outcome : Outcome) : Except Rejection (Cycle × List Mark) :=
  match tree.pending with
  | none => .error .noSubmissionPending
  | some pending =>
    match success? outcome with
    | some response =>
      let later := (Cycle.start (tree.informed response)).traceRun pending.button pending.remaining
        pending.reject
      .ok (later.1, .stop true :: later.2)
    | none =>
      let later := Cycle.traceChain pending.button [] pending.reject ⟨tree.refused outcome, refusal outcome⟩
      .ok (later.1.1, .stop false :: later.2)

variable (tree : Tree)

theorem traceClick_map_fst (path : Path) : (tree.traceClick path).map Prod.fst = tree.click path := by
  unfold traceClick click
  split
  · rfl
  · cases tree.field? path with
    | none => rfl
    | some field =>
        dsimp only
        cases field.button with
        | none => rfl
        | some button =>
            dsimp only
            split
            · rfl
            · split
              · rfl
              · exact congrArg Except.ok (Cycle.traceRun_fst path _ _ _)

variable {tree} in
theorem traceClick_eq_ok {path : Path} {traced : Cycle × List Mark} (clicked : tree.traceClick path = .ok traced) :
    tree.isBusy = false ∧ ∃ field button, tree.field? path = some field ∧ field.button = some button ∧
      traced = (Cycle.start tree).traceRun path button.pipeline.success button.pipeline.reject := by
  unfold traceClick at clicked
  split at clicked
  · cases clicked
  · rename_i idle
    split at clicked
    · cases clicked
    · rename_i field found
      split at clicked
      · cases clicked
      · rename_i button isButton
        split at clicked
        · cases clicked
        · split at clicked
          · cases clicked
          · exact ⟨by simpa using idle, field, button, found, isButton, (Except.ok.inj clicked).symm⟩

theorem traceComplete_map_fst (outcome : Outcome) :
    (tree.traceComplete outcome).map Prod.fst = tree.complete outcome := by
  unfold traceComplete
  cases waits : tree.pending with
  | none =>
      rw [complete, waits]
      rfl
  | some pending =>
      rw [complete_eq waits]
      cases success? outcome with
      | some response => exact congrArg Except.ok (Cycle.traceRun_fst pending.button _ _ _)
      | none => exact congrArg (fun result => Except.ok result.1) (Cycle.traceChain_fst pending.button [] _ _)

end Tree

end Formwork
