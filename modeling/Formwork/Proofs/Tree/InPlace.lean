import Formwork.Proofs.Node.Bounds
import Formwork.Proofs.Tree.Reachable

/-!
# Operations in place

A tree answers an operation with another tree, so there is nothing that a refusal could spoil. A host holds a
single tree and changes it where it stands. There checks and changes follow one another on the same tree: the
node at a path is taken out and worked on, and whatever the work leaves is put back, even if it was refused
(`Tree.within`); and the pending submission is taken out before it is known whether there is one.

`Tree.carryOut` says for every operation which checks and changes it is made of, in their order. What it reports
and leaves is what the tree answers, and a refusal leaves the tree as it was (`Tree.carryOut_eq`). So refusals are
atomic, and a tree with a pending submission is frozen until the outcome is delivered (`Tree.Atomic`).
-/

set_option autoImplicit false

namespace Formwork

/-- Work on a state in place. Also what is refused leaves a state behind. -/
abbrev Attempt (State : Type) := ExceptT Rejection (StateM State)

namespace Attempt

variable {State Value Result : Type}

/-- What comes of an attempt, and the state that it leaves. -/
def on (attempt : Attempt State Value) (state : State) : Except Rejection Value × State :=
  Id.run (attempt.run.run state)

/-- An answer, as an attempt that leaves the state as it was if it is refused. -/
def outcome (state : State) : Except Rejection (Value × State) → Except Rejection Value × State
  | .ok (value, left) => (.ok value, left)
  | .error rejection => (.error rejection, state)

/-- A check that refuses what follows. -/
def refuseIf (condition : Prop) [Decidable condition] (rejection : Rejection) : Attempt State Unit :=
  if condition then throw rejection else pure ()

variable (state : State)

@[simp]
theorem on_pure (value : Value) : (pure value : Attempt State Value).on state = (.ok value, state) := rfl

@[simp]
theorem on_throw (rejection : Rejection) :
    (throw rejection : Attempt State Value).on state = (.error rejection, state) := rfl

@[simp]
theorem on_get : (get : Attempt State State).on state = (.ok state, state) := rfl

@[simp]
theorem on_set (later : State) : (set later : Attempt State PUnit).on state = (.ok ⟨⟩, later) := rfl

@[simp]
theorem on_modify (change : State → State) :
    (modify change : Attempt State PUnit).on state = (.ok ⟨⟩, change state) := rfl

/-- What follows works on the state that was left, unless the first attempt was refused. -/
theorem on_bind (first : Attempt State Value) (next : Value → Attempt State Result) :
    (first >>= next).on state =
      match first.on state with
      | (.ok value, left) => (next value).on left
      | (.error rejection, left) => (.error rejection, left) := by
  simp only [on, ExceptT.run_bind, StateT.run_bind, Id.run_bind]
  rcases Id.run (first.run.run state) with ⟨result, left⟩
  cases result <;> rfl

theorem on_ite (condition : Prop) [Decidable condition] (first second : Attempt State Value) :
    (if condition then first else second).on state = if condition then first.on state else second.on state :=
  apply_ite (on · state) ..

/-- A check refuses what follows, and leaves the state as it is. -/
theorem on_refuseIf_bind (condition : Prop) [Decidable condition] (rejection : Rejection)
    (next : Unit → Attempt State Result) :
    (refuseIf condition rejection >>= next).on state =
      if condition then (.error rejection, state) else (next ()).on state := by
  rw [on_bind, refuseIf, on_ite]
  by_cases refused : condition
  · rw [if_pos refused, if_pos refused, on_throw]
  · rw [if_neg refused, if_neg refused, on_pure]

theorem on_get_bind (next : State → Attempt State Result) :
    (get >>= next : Attempt State Result).on state = (next state).on state := by
  rw [on_bind, on_get]

end Attempt

/-! ## Nodes -/

namespace Node

open Attempt

/-- Checks that a series has room for another sibling. -/
def checkRoom (path : Path) (frame : Frame) (siblings : List Sibling) : Attempt Node Unit :=
  match frame.plan.maxSiblings with
  | some greatest => refuseIf (greatest ≤ siblings.length) (.maxSiblingsReached path greatest)
  | none => pure ()

/-- The index of a sibling behind a given one, or at the end. -/
def placeBehind (path : Path) (siblings : List Sibling) : Option Nat → Attempt Node Nat
  | some index =>
    if siblings.length ≤ index then throw (.siblingOutOfRange path index) else pure (index + 1)
  | none => pure siblings.length

/-- Adds a blank sibling to the series where it stands, and answers its index. -/
def addInPlace (path : Path) (behind : Option Nat) : Attempt Node Nat := do
  match ← get with
  | .series frame template siblings =>
    checkRoom path frame siblings
    let position ← placeBehind path siblings behind
    set (Node.series frame template (siblings.insertIdx position (.mk false template)))
    return position
  | .collection _ none _ => throw (.notRepeatable path)
  | _ => throw (.notACollection path)

/-- Removes a sibling of the series where it stands. How many live ones will be left is reckoned before. -/
def removeInPlace (path : Path) (index : Nat) : Attempt Node Unit := do
  match ← get with
  | .series frame template siblings =>
    refuseIf (siblings.length ≤ index) (.siblingOutOfRange path index)
    let live := liveCount siblings
    let left := if siblings[index]?.any Sibling.isPristine then live else live - 1
    refuseIf (left < frame.least) (.minSiblingsReached path frame.least)
    set (Node.series frame template (siblings.eraseIdx index))
  | .collection _ none _ => throw (.notRepeatable path)
  | _ => throw (.notACollection path)

/-- Checks the steps up to a new one where they stand, and moves on if none of them is invalid. -/
def advanceInPlace (path : Path) (index : Nat) (frame : Frame) (progress : Progress)
    (members : List (String × Node)) : Attempt Node (List (Path × List String)) := do
  let checked := validateSteps path progress.current index members
  set (Node.collection frame (some progress) checked)
  let failures := stepFailures path progress.current index members
  if failures.isEmpty then set (Node.collection frame (some (progress.moveTo index)) checked)
  return failures

/-- Goes to a step of the stepper where it stands, and answers what keeps it back. -/
def goInPlace (path : Path) (index : Nat) : Attempt Node (List (Path × List String)) := do
  match ← get with
  | .collection frame (some progress) members =>
    refuseIf (progress.visited.length ≤ index) (.stepOutOfRange path index)
    if index = progress.current then return []
    refuseIf (progress.furthest + 1 < index) (.stepNotReachable path index)
    if progress.hasVisited index then
      set (Node.collection frame (some { progress with current := index }) members)
      return []
    advanceInPlace path index frame progress members
  | _ => throw (.notAStepper path)

theorem addInPlace_eq (path : Path) (behind : Option Nat) (node : Node) :
    (addInPlace path behind).on node = outcome node ((node.addSibling path behind).map Prod.swap) := by
  rw [addInPlace, on_get_bind]
  cases node with
  | form content => rfl
  | collection frame progress members => cases progress <;> rfl
  | series frame template siblings =>
      cases bound : frame.plan.maxSiblings with
      | none =>
          cases behind with
          | none =>
              simp only [addSibling, checkRoom, bound]
              rfl
          | some index =>
              by_cases outside : siblings.length ≤ index
              · simp only [addSibling, checkRoom, placeBehind, bound, if_pos outside]
                rfl
              · simp only [addSibling, checkRoom, placeBehind, bound, if_neg outside]
                rfl
      | some greatest =>
          by_cases full : greatest ≤ siblings.length
          · simp only [addSibling, checkRoom, bound, if_pos full, on_refuseIf_bind]
            rfl
          · cases behind with
            | none =>
                simp only [addSibling, checkRoom, bound, if_neg full, on_refuseIf_bind]
                rfl
            | some index =>
                by_cases outside : siblings.length ≤ index
                · simp only [addSibling, checkRoom, placeBehind, bound, if_neg full, if_pos outside, on_refuseIf_bind]
                  rfl
                · simp only [addSibling, checkRoom, placeBehind, bound, if_neg full, if_neg outside, on_refuseIf_bind]
                  rfl

theorem removeInPlace_eq (path : Path) (index : Nat) (node : Node) :
    (removeInPlace path index).on node =
      outcome node ((node.removeSibling path index).map fun reduced => ((), reduced)) := by
  rw [removeInPlace, on_get_bind]
  cases node with
  | form content => rfl
  | collection frame progress members => cases progress <;> rfl
  | series frame template siblings =>
      dsimp only [removeSibling]
      rw [on_refuseIf_bind]
      split
      · rfl
      · rename_i inside
        rw [on_refuseIf_bind, ← liveCount_eraseIdx (Nat.not_le.mp inside)]
        split
        · rfl
        · rfl

theorem goInPlace_eq (path : Path) (index : Nat) (node : Node) :
    (goInPlace path index).on node = outcome node ((node.goTo path index).map Prod.swap) := by
  rw [goInPlace, on_get_bind]
  cases node with
  | form content => rfl
  | series frame template siblings => rfl
  | collection frame progress members =>
      cases progress with
      | none => rfl
      | some progress =>
          dsimp only [goTo]
          rw [on_refuseIf_bind]
          split
          · rfl
          · split
            · rfl
            · rw [on_refuseIf_bind]
              split
              · rfl
              · split
                · rfl
                · rw [advanceInPlace, on_bind, on_set]
                  dsimp only
                  split
                  · rfl
                  · rfl

end Node

/-! ## Trees -/

namespace Tree

open Attempt

/-- Refuses everything while a submission waits for its outcome. -/
def ensureIdle : Attempt Tree Unit := do
  refuseIf ((← get).isBusy = true) .busy

/-- The field at a path. -/
def fieldAt (path : Path) : Attempt Tree Field := do
  match (← get).field? path with
  | some field => return field
  | none => throw (.unknownPath path)

/-- Checks that a field can be operated. -/
def ensureOperable (path : Path) (field : Field) : Attempt Tree Unit := do
  refuseIf (field.hidden = true) (.hidden path)
  refuseIf (field.disabled = true) (.disabled path)

/-- Works on the node at a path, and puts back what is left of it, whether the work was refused or not. -/
def within {Value : Type} (path : Path) (work : Attempt Node Value) : Attempt Tree Value := do
  match (← get).node? path with
  | none => throw (.unknownPath path)
  | some node =>
    modify fun tree => tree.change path (Node.modify fun _ => (work.on node).2)
    ofExcept (work.on node).1

/-- Goes on with work that cannot be refused, and answers the report of it. -/
def proceed (report : Report) (work : Cycle → Cycle) : Attempt Tree Report := do
  let cycle := work ⟨← get, report⟩
  set cycle.tree
  return cycle.report

/-- Takes the pending submission out of the tree, whether there is one or not. -/
def takePending : Attempt Tree Pending := do
  let waiting := (← get).pending
  modify idle
  match waiting with
  | some pending => return pending
  | none => throw .noSubmissionPending

/-- Carries an operation out in place. -/
def carryOut : Operation → Attempt Tree Report
  | .setValue path value => do
    ensureIdle
    let field ← fieldAt path
    refuseIf (field.isButton = true) (.notAValueField path)
    ensureOperable path field
    modify fun tree => tree.change path (Node.modifyField (Field.setValue value))
    modify fun tree => tree.change path Node.touch
    proceed .empty fun cycle => cycle.settle.1
  | .click path => do
    ensureIdle
    let field ← fieldAt path
    match field.button with
    | none => throw (.notAnActivator path)
    | some button =>
      ensureOperable path field
      proceed .empty (Cycle.run path button.pipeline.success button.pipeline.reject)
  | .addSibling path behind => do
    ensureIdle
    let index ← within path (Node.addInPlace path behind)
    proceed { Report.empty with sibling := some index } fun cycle => cycle.settle.1
  | .removeSibling path index => do
    ensureIdle
    within path (Node.removeInPlace path index)
    proceed .empty fun cycle => cycle.settle.1
  | .goToStep path index => do
    ensureIdle
    let failures ← within path (Node.goInPlace path index)
    let here := (← get).here
    let validation := if failures.isEmpty then none else some (ValidationReport.ofFailures here failures)
    proceed { Report.empty with validation } fun cycle => cycle.settle.1
  | .validate => do
    modify fun tree => tree.validate.1
    return .empty
  | .validatePart scope => do
    modify fun tree => (tree.validatePart scope).1
    return .empty
  | .applyErrors messages => do
    modify fun tree => tree.applyErrors messages
    return .empty
  | .reset => do
    ensureIdle
    modify restore
    return .empty
  | .complete outcome => do
    let pending ← takePending
    match success? outcome with
    | some response =>
      modify fun tree => tree.informed response
      proceed .empty (Cycle.run pending.button pending.remaining pending.reject)
    | none =>
      modify fun tree => tree.refused outcome
      proceed (refusal outcome) fun cycle => (cycle.runChain pending.button [] pending.reject).1

variable {tree : Tree}

/-- The answer of a tree as the report and the tree that is left. -/
def answered (tree : Tree) (operation : Operation) : Except Rejection (Report × Tree) :=
  (tree.answer operation).map fun cycle => (cycle.report, cycle.tree)

theorem on_ensureIdle_bind {Result : Type} (next : Unit → Attempt Tree Result) :
    (ensureIdle >>= next).on tree = if tree.isBusy then (.error .busy, tree) else (next ()).on tree := by
  rw [on_bind, ensureIdle, on_get_bind, refuseIf, on_ite]
  by_cases busy : tree.isBusy = true
  · rw [if_pos busy, if_pos busy, on_throw]
  · rw [if_neg busy, if_neg busy, on_pure]

theorem on_fieldAt_bind {Result : Type} (path : Path) (next : Field → Attempt Tree Result) :
    (fieldAt path >>= next).on tree = match tree.field? path with
      | some field => (next field).on tree
      | none => (.error (.unknownPath path), tree) := by
  rw [on_bind, fieldAt, on_get_bind]
  cases tree.field? path <;> rfl

theorem on_ensureOperable_bind {Result : Type} (path : Path) (field : Field) (next : Unit → Attempt Tree Result) :
    (ensureOperable path field >>= next).on tree =
      if field.hidden then (.error (.hidden path), tree)
      else if field.disabled then (.error (.disabled path), tree) else (next ()).on tree := by
  rw [on_bind, ensureOperable, on_refuseIf_bind, refuseIf]
  by_cases isHidden : field.hidden = true
  · rw [if_pos isHidden, if_pos isHidden]
  · rw [if_neg isHidden, if_neg isHidden, on_ite]
    by_cases isDisabled : field.disabled = true
    · rw [if_pos isDisabled, if_pos isDisabled, on_throw]
    · rw [if_neg isDisabled, if_neg isDisabled, on_pure]

/-- To put the node at a path where it is leaves the tree as it is. -/
theorem change_self {path : Path} {node : Node} (stands : tree.node? path = some node) :
    tree.change path (Node.modify fun _ => node) = tree := by
  obtain ⟨segments, below, found⟩ := Option.bind_eq_some_iff.mp stands
  rw [change_of_below below, Node.modify_self found]

/-- Work that is refused and leaves the node as it was leaves the tree as it was. -/
theorem on_within_bind {Value Result : Type} {path : Path} {work : Attempt Node Value}
    {answer : Node → Except Rejection (Value × Node)} (answers : ∀ node, work.on node = outcome node (answer node))
    (next : Value → Attempt Tree Result) :
    (within path work >>= next).on tree = match tree.node? path with
      | none => (.error (.unknownPath path), tree)
      | some node =>
        match answer node with
        | .error rejection => (.error rejection, tree)
        | .ok (value, left) => (next value).on (tree.change path (Node.modify fun _ => left)) := by
  rw [on_bind, within, on_get_bind]
  cases stands : tree.node? path with
  | none => rfl
  | some node =>
      dsimp only
      rw [on_bind, on_modify, answers]
      cases answer node with
      | error rejection =>
          -- What was refused is put back as it was.
          change (Except.error rejection, tree.change path (Node.modify fun _ => node)) = _
          rw [change_self stands]
      | ok done => rfl

/-- Taking out a submission that is not there leaves the tree as it is. -/
theorem idle_eq_self (waits : tree.pending = none) : tree.idle = tree := by
  rw [idle, ← waits]

/-- An operation that is carried out in place reports and leaves what the tree answers; if it is refused, it
leaves the tree as it was. -/
theorem carryOut_eq (tree : Tree) (operation : Operation) :
    (carryOut operation).on tree = outcome tree (tree.answered operation) := by
  cases operation with
  | setValue path value =>
      rw [carryOut, on_ensureIdle_bind, on_fieldAt_bind, answered, answer, setValue]
      split
      · rfl
      · cases tree.field? path with
        | none => rfl
        | some field =>
            dsimp only
            rw [on_refuseIf_bind, on_ensureOperable_bind]
            split
            · rfl
            · split
              · rfl
              · split
                · rfl
                · rfl
  | click path =>
      rw [carryOut, on_ensureIdle_bind, on_fieldAt_bind, answered, answer, click]
      split
      · rfl
      · cases tree.field? path with
        | none => rfl
        | some field =>
            dsimp only
            cases field.button with
            | none => rfl
            | some button =>
                dsimp only
                rw [on_ensureOperable_bind]
                split
                · rfl
                · split
                  · rfl
                  · rfl
  | addSibling path behind =>
      rw [carryOut, on_ensureIdle_bind, on_within_bind (Node.addInPlace_eq path behind), answered, answer, addSibling]
      split
      · rfl
      · cases tree.node? path with
        | none => rfl
        | some node =>
            dsimp only
            cases node.addSibling path behind with
            | error rejection => rfl
            | ok extended => rfl
  | removeSibling path index =>
      rw [carryOut, on_ensureIdle_bind, on_within_bind (Node.removeInPlace_eq path index), answered, answer,
        removeSibling]
      split
      · rfl
      · cases tree.node? path with
        | none => rfl
        | some node =>
            dsimp only
            cases node.removeSibling path index with
            | error rejection => rfl
            | ok reduced => rfl
  | goToStep path index =>
      rw [carryOut, on_ensureIdle_bind, on_within_bind (Node.goInPlace_eq path index), answered, answer, goToStep,
        Cycle.navigate, Cycle.start]
      split
      · rfl
      · cases tree.node? path with
        | none => rfl
        | some node =>
            dsimp only
            cases node.goTo path index with
            | error rejection => rfl
            | ok gone =>
                obtain ⟨moved, failures⟩ := gone
                cases failures with
                | nil => rfl
                | cons failure rest => rfl
  | validate => rfl
  | validatePart scope => rfl
  | applyErrors messages => rfl
  | reset =>
      rw [carryOut, on_ensureIdle_bind, answered, answer, reset]
      split
      · rfl
      · rfl
  | complete outcome =>
      rw [carryOut, answered, answer, on_bind, takePending, on_get_bind, on_bind, on_modify]
      cases waits : tree.pending with
      | none =>
          rw [complete, waits]
          exact congrArg _ (idle_eq_self waits)
      | some pending =>
          rw [complete_eq waits]
          cases success? outcome with
          | none => rfl
          | some response => rfl

/-! ## Atomicity -/

end Tree

/-- Whether an operation is refused while a submission waits for its outcome. -/
def Operation.needsIdle : Operation → Bool
  | .setValue _ _ | .click _ | .addSibling _ _ | .removeSibling _ _ | .goToStep _ _ | .reset => true
  | .validate | .validatePart _ | .applyErrors _ | .complete _ => false

namespace Tree

/-- What operations that are carried out in place report and leave. -/
structure Atomic (tree : Tree) : Prop where
  /-- A refusal leaves the whole tree as it was, and the tree answers it too. -/
  refused : ∀ operation rejection left, (carryOut operation).on tree = (.error rejection, left) →
    left = tree ∧ tree.answer operation = .error rejection
  /-- What is accepted reports and leaves what the tree answers. -/
  accepted : ∀ operation cycle, tree.answer operation = .ok cycle →
    (carryOut operation).on tree = (.ok cycle.report, cycle.tree)
  /-- While a submission waits for its outcome, the tree is frozen whatever the arguments are. -/
  frozen : tree.isBusy = true → ∀ operation, operation.needsIdle = true →
    (carryOut operation).on tree = (.error .busy, tree)
  /-- The outcome is then accepted whatever it is. -/
  completes : tree.isBusy = true → ∀ outcome, ∃ report left,
    (carryOut (.complete outcome)).on tree = (.ok report, left)
  /-- While no submission waits, no outcome is accepted. -/
  nothingPending : tree.isBusy = false → ∀ outcome,
    (carryOut (.complete outcome)).on tree = (.error .noSubmissionPending, tree)

theorem atomic (tree : Tree) : tree.Atomic where
  refused operation rejection left done := by
    rw [carryOut_eq, answered] at done
    cases answer : tree.answer operation with
    | error other =>
        rw [answer] at done
        cases done
        exact ⟨rfl, rfl⟩
    | ok cycle =>
        rw [answer] at done
        cases done
  accepted operation cycle done := by
    rw [carryOut_eq, answered, done]
    rfl
  frozen busy operation needsIdle := by
    rw [carryOut_eq, answered]
    cases operation with
    | setValue path value => rw [answer, setValue, if_pos busy]; rfl
    | click path => rw [answer, click, if_pos busy]; rfl
    | addSibling path behind => rw [answer, addSibling, if_pos busy]; rfl
    | removeSibling path index => rw [answer, removeSibling, if_pos busy]; rfl
    | goToStep path index => rw [answer, goToStep, if_pos busy]; rfl
    | reset => rw [answer, reset, if_pos busy]; rfl
    | _ => cases needsIdle
  completes busy outcome := by
    obtain ⟨pending, waits⟩ := Option.isSome_iff_exists.mp busy
    rw [carryOut_eq, answered, answer, complete_eq waits]
    exact ⟨_, _, rfl⟩
  nothingPending notBusy outcome := by
    have waits : tree.pending = none := by simpa [isBusy] using notBusy
    rw [carryOut_eq, answered, answer, complete, waits]
    rfl

end Tree

end Formwork
