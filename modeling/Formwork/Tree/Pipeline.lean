import Formwork.Tree

/-!
# Running actions

A click runs the calls of a button one after the other. The first call that fails ends the chain, and
the reject chain of the button runs in its place. A submission suspends the chain: the tree keeps the
calls that are left and refuses every other operation until the outcome is delivered.
-/

set_option autoImplicit false

namespace Formwork

/-- How a chain of calls ended. -/
inductive Ending where
  | completed
  /-- The chain waits for the outcome of a submission. -/
  | suspended
  | failed
deriving DecidableEq, Repr

namespace Tree

/-! ## Arguments -/

/-- The first field with a value that a reference means for the form or fieldset of a button. -/
def resolveField? (tree : Tree) (button : Path) (target : Reference) : Option Path :=
  (target.candidates button.enclosing).find? fun place =>
    match tree.field? place with
    | some field => !field.isButton
    | none => false

/-- The value of an argument. -/
def argumentValue? (tree : Tree) (button : Path) : Argument → Option Value
  | .text content => some (.text content)
  | .number source => some (.text source)
  | .flag value => some (.flag value)
  | .path target =>
    ((tree.resolveField? button target).bind tree.field?).map Field.value
  | .response key => (Assoc.get? key tree.response).map Value.ofJson

/-- The value of an argument as a text; an argument without a value is empty. -/
def argumentText (tree : Tree) (button : Path) (argument : Argument) : String :=
  ((tree.argumentValue? button argument).map Value.asText).getD ""

/-- The path of the form that owns a button, which is what a partial submission sends. -/
def ownerOf (tree : Tree) (button : Path) : Path :=
  match (tree.below? button).bind fun segments => tree.root.formAt? segments with
  | some (names, _) => button.truncate (button.size - names.length)
  | none => tree.here

/-- Stores a value in the field at a path. The siblings around it count as touched. -/
def store (tree : Tree) (path : Path) (value : Value) : Tree :=
  (tree.change path (Node.modifyField (Field.setValue value))).change path Node.touch

end Tree

namespace Cycle

/-! ## Calls -/

/-- Stores a value, if there is one, in the field that a target means, and settles the tree. -/
def assign (button : Path) (target : Reference) (value : Option Value) (cycle : Cycle) : Cycle × Bool :=
  match cycle.tree.resolveField? button target, value with
  | some path, some content => { cycle with tree := cycle.tree.store path content }.settle
  | _, _ => (cycle, false)

/-- Reports an effect. -/
def emit (effect : Effect) (cycle : Cycle) : Cycle :=
  { cycle with report := { cycle.report with effects := cycle.report.effects ++ [effect] } }

/-- The address of a redirection: the given one, or else that of the last successful response. -/
def addressOr (given : Option String) (cycle : Cycle) : Option String :=
  given.orElse fun _ => (Assoc.get? Response.addressKey cycle.tree.response).bind Json.text?

/-- Validates what is to be sent. A request is sent only if nothing is wrong with it, and the calls that
are left then wait for its outcome. -/
def beginSubmission (button : Path) (method : Method) (remaining reject : List Call) (cycle : Cycle) :
    Cycle × Ending :=
  let scope := cycle.tree.ownerOf button
  let (tree, outcome) := match method with
    | .post => cycle.tree.validate
    | .patch => cycle.tree.validatePart scope
  if outcome.isValid then
    let data := match method with
      | .post => tree.payload
      | .patch => tree.partialPayload scope
    let waiting := { tree with pending := some ⟨button, method, remaining, reject⟩ }
    (emit (.submit ⟨method, data⟩) ⟨waiting, cycle.report⟩, .suspended)
  else (⟨tree, { cycle.report with validation := some outcome }⟩, .failed)

/-- How a chain stands after a call that sends no request. -/
def ending (result : Cycle × Bool) : Cycle × Ending :=
  (result.1, if result.2 then .completed else .failed)

/-- Performs a call. The calls that are left behind it and the reject chain are needed by a submission,
which keeps them. -/
def perform (button : Path) (remaining reject : List Call) (call : Call) (cycle : Cycle) : Cycle × Ending :=
  match call with
  | .activate arguments =>
    let texts := arguments.map (cycle.tree.argumentText button)
    ending { cycle with tree := { cycle.tree with firing := some ⟨button, texts⟩ } }.settle
  | .submit => cycle.beginSubmission button .post remaining reject
  | .submitPartial => cycle.beginSubmission button .patch remaining reject
  | .setFieldValue target source =>
    ending (cycle.assign button target (cycle.tree.argumentValue? button source))
  | .deleteValue target =>
    let held := (cycle.tree.resolveField? button target).bind cycle.tree.field?
    ending (cycle.assign button target (held.map fun field => field.value.blank))
  | .reset => ({ cycle with tree := cycle.tree.restore }, .completed)
  | .disable =>
    ending { cycle with tree := cycle.tree.change button (Node.modifyField (Field.setSelfDisabled true)) }.settle
  | .enable =>
    ending { cycle with tree := cycle.tree.change button (Node.modifyField (Field.setSelfDisabled false)) }.settle
  | .proceed given =>
    match cycle.addressOr given with
    | some address => (cycle.emit (.redirect address), .completed)
    | none => (cycle, .failed)
  | .clearErrors => ({ cycle with tree := cycle.tree.clearErrors }, .completed)
  | .noop => (cycle, .completed)

/-- Runs the calls of a chain until one fails or sends a request. -/
def runChain (button : Path) (reject : List Call) : List Call → Cycle → Cycle × Ending
  | [], cycle => (cycle, .completed)
  | call :: rest, cycle =>
    match cycle.perform button rest reject call with
    | (after, .completed) => runChain button reject rest after
    | stopped => stopped

/-- Runs a chain, and the reject chain if it fails. -/
def run (button : Path) (chain reject : List Call) (cycle : Cycle) : Cycle :=
  match cycle.runChain button reject chain with
  | (after, .failed) => (after.runChain button [] reject).1
  | (after, _) => after

end Cycle

namespace Tree

/-! ## Clicks and outcomes -/

/-- Clicks the button at a path. -/
def click (tree : Tree) (path : Path) : Except Rejection Cycle :=
  if tree.isBusy then .error .busy
  else
    match tree.field? path with
    | none => .error (.unknownPath path)
    | some field =>
      match field.button with
      | none => .error (.notAnActivator path)
      | some button =>
        if field.hidden then .error (.hidden path)
        else if field.disabled then .error (.disabled path)
        else .ok ((Cycle.start tree).run path button.pipeline.success button.pipeline.reject)

/-- The fields of an object, and nothing for any other value. -/
def responseFields : Json → List (String × Json)
  | .object fields => fields
  | _ => []

/-- Delivers the outcome of the pending submission. A success keeps the body of the response and goes on
with the calls that are left; everything else runs the reject chain, after the messages of a
response of status 422 have been handed to their places. -/
def complete (tree : Tree) (outcome : Outcome) : Except Rejection Cycle :=
  match tree.pending with
  | none => .error .noSubmissionPending
  | some pending =>
    let idle := { tree with pending := none }
    let rejected (after : Tree) (report : Report) : Cycle :=
      (Cycle.runChain pending.button [] pending.reject ⟨after, report⟩).1
    match outcome with
    | .ok response =>
      if response.isSuccess then
        let informed := { idle with response := responseFields response.body, strayErrors := [] }
        .ok ((Cycle.start informed).run pending.button pending.remaining pending.reject)
      else if response.isValidationFailure then
        let messages := response.messages
        .ok (rejected (idle.applyErrors messages) { Report.empty with validation := some ⟨422, messages⟩ })
      else
        let description := "unexpected response status " ++ Text.indexText response.status
        .ok (rejected idle { Report.empty with failure := some description })
    | .error failure => .ok (rejected idle { Report.empty with failure := some failure.message })

end Tree

end Formwork
