import Formwork.Node.Mounting
import Formwork.Node.Stepping

/-!
# Trees

A tree is a mounted description: the root node, the button that fires at the moment, the
submission that waits for its outcome, the values of the last successful response, and messages that
belong to no place.

After every change a tree is settled (`Cycle.settle`): its flags are derived anew, the inducers
that have turned true are carried out, the button stops firing, and the inducers are remembered as
they are then. So between two operations no button fires, every flag agrees with the values, and
every inducer remembers the truth of its condition.
-/

set_option autoImplicit false

namespace Formwork

/-- The button that fires, with the arguments of its call. -/
structure Firing where
  path : Path
  arguments : List String
deriving DecidableEq, Repr

/-- A chain of calls that waits for the outcome of a submission. -/
structure Pending where
  button : Path
  method : Method
  /-- The calls that follow if the submission succeeds. -/
  remaining : List Call
  /-- The calls that follow if it fails. -/
  reject : List Call
deriving DecidableEq, Repr

/-- A mounted tree. -/
structure Tree where
  namespaceText : Option String
  root : Node
  firing : Option Firing
  pending : Option Pending
  /-- The body of the last successful response, if it was an object. -/
  response : List (String × Json)
  /-- Messages that neither a field nor a form or fieldset has taken. -/
  strayErrors : List String

/-- What the paths read as that some readings list. -/
def lookupIn (readings : List (Path × Reading)) : Lookup := fun path =>
  readings.findSome? fun (place, reading) => if place = path then some reading else none

namespace Tree

/-! ## Places -/

/-- The path of the root. -/
def here (tree : Tree) : Path :=
  match tree.namespaceText with
  | some text => .parse text
  | none => .root

/-- The path that a dotted text below the root stands for. -/
def path (tree : Tree) (text : String) : Path := tree.here.extend (.parse text)

/-- The segments below the root that lead to a path, if it lies below the root. -/
def below? (tree : Tree) (path : Path) : Option (List String) :=
  (path.stripFront? tree.here).map Path.segments

/-- The node at a path. -/
def node? (tree : Tree) (path : Path) : Option Node :=
  (tree.below? path).bind fun segments => tree.root.get? segments

/-- The field at a path. -/
def field? (tree : Tree) (path : Path) : Option Field :=
  (tree.below? path).bind fun segments => tree.root.field? segments

/-- The group of the form or fieldset at a path. -/
def group? (tree : Tree) (path : Path) : Option Group :=
  (tree.below? path).bind fun segments => tree.root.group? segments

/-- Changes the root along a path. -/
def change (tree : Tree) (path : Path) (edit : List String → Node → Node) : Tree :=
  match tree.below? path with
  | some segments => { tree with root := edit segments tree.root }
  | none => tree

/-- All fields with their paths. -/
def fields (tree : Tree) : List (Path × Field) := tree.root.fields tree.here

def isBusy (tree : Tree) : Bool := tree.pending.isSome

/-! ## Derived state -/

/-- Whether the button at a path fires. -/
def fires (tree : Tree) (path : Path) : Bool :=
  match tree.firing with
  | some firing => firing.path == path
  | none => false

/-- What the paths of all fields read as. -/
def readings (tree : Tree) : List (Path × Reading) :=
  tree.fields.map fun (place, field) => (place, field.reading (tree.fires place))

/-- Derives all flags anew. -/
def refresh (tree : Tree) : Tree :=
  { tree with root := tree.root.refresh (lookupIn tree.readings) tree.here }

/-- Remembers the truth of all inducers. -/
def latch (tree : Tree) : Tree :=
  { tree with root := tree.root.latch (lookupIn tree.readings) tree.here }

/-- The inducers that have turned true since they were last remembered. -/
def rising (tree : Tree) : List InducedEvent :=
  tree.root.rising (lookupIn tree.readings) tree.here

/-- The tree of a blueprint with initial data that may be absent. Conditions that are true from the
start do not fire, and steps that are filled in already count as visited. -/
def mount (blueprint : Blueprint) (initial : Option Json) : Except MountError Tree := do
  let here := match blueprint.namespaceText with
    | some text => Path.parse text
    | none => .root
  let built ← Node.build here .top blueprint.root
  let bare : Tree := {
    namespaceText := blueprint.namespaceText
    root := built.fill (initial.map InitialData.expandKeys)
    firing := none
    pending := none
    response := []
    strayErrors := [] }
  let fresh := bare.refresh
  return { fresh with root := fresh.root.markPrefilled }.latch

/-- Restores the values at mounting and forgets all messages. Nothing fires. -/
def restore (tree : Tree) : Tree :=
  { tree with root := tree.root.reset, strayErrors := [] }.refresh.latch

/-- Forgets all messages. -/
def clearErrors (tree : Tree) : Tree :=
  { tree with root := tree.root.clearErrors, strayErrors := [] }

/-! ## Data -/

/-- The values of all operable fields outside pristine siblings. -/
def collected (tree : Tree) : List (Path × Value) := tree.root.collected tree.here

/-- The values of the collection at a path. -/
def siblingData (tree : Tree) (path : Path) : Option SiblingData :=
  (tree.node? path).bind (Node.siblingData path)

/-- The data of a submission of the whole tree. -/
def payload (tree : Tree) : Json := tree.root.wire

/-- The data of a submission of the node at a path, inside the objects that lead to it. -/
def partialPayload (tree : Tree) (scope : Path) : Json :=
  let data := match tree.node? scope with
    | some node => node.wire
    | none => .object []
  InitialData.nest ((tree.below? scope).getD []) data

/-- Whether every field that takes part in validation is valid, and no form shows messages. -/
def isValid (tree : Tree) : Bool := tree.root.isValid

/-! ## Validation -/

/-- Validates the whole tree. -/
def validate (tree : Tree) : Tree × ValidationReport :=
  let report := ValidationReport.ofFailures tree.here (tree.root.failures tree.here)
  ({ tree with
      root := tree.root.validate tree.here
      strayErrors := if report.isValid then [] else tree.strayErrors }, report)

/-- Validates the node, or else the fieldset, at a path. -/
def validatePart (tree : Tree) (scope : Path) : Tree × ValidationReport :=
  match tree.node? scope with
  | some node =>
    (tree.change scope (Node.modify (Node.validate scope)),
      .ofFailures tree.here (node.failures scope))
  | none =>
    let failures := match (tree.below? scope).bind fun segments => tree.root.formAt? segments with
      | some (names, form) => form.failuresAt scope names
      | none => []
    (tree.change scope (Node.modifyForm (Form.validateAt scope)), .ofFailures tree.here failures)

/-- Hands messages from a server to the field, form or fieldset that their dotted path leads to. A path
that ends in `__all__` means the form or fieldset around it. -/
def applyMessages (tree : Tree) (key : String) (messages : List String) : Tree :=
  let place := tree.path key
  let target := if place.last? = some Response.groupKey then place.enclosing else place
  if (tree.field? target).isSome then tree.change target (Node.modifyField (Field.setErrors messages))
  else if (tree.group? target).isSome then tree.change target (Node.modifyGroup (Group.addErrors messages))
  else { tree with strayErrors := tree.strayErrors ++ messages }

/-- Hands all messages of a server to their places. -/
def applyErrors (tree : Tree) (messages : Messages) : Tree :=
  messages.foldl (fun tree (key, contents) => tree.applyMessages key contents) tree

end Tree

/-! ## Settling -/

/-- A tree in the middle of an operation, and what has happened so far. -/
structure Cycle where
  tree : Tree
  report : Report

namespace Cycle

/-- The start of an operation on a tree. -/
def start (tree : Tree) : Cycle := ⟨tree, .empty⟩

/-- Goes to a step of the stepper at a path, and answers whether it is there now. -/
def navigate (path : Path) (index : Nat) (cycle : Cycle) : Except Rejection (Cycle × Bool) :=
  match cycle.tree.node? path with
  | none => .error (.unknownPath path)
  | some node => do
    let (moved, failures) ← node.goTo path index
    let tree := cycle.tree.change path (Node.modify fun _ => moved)
    if failures.isEmpty then return ({ cycle with tree }, true)
    else
      let outcome := ValidationReport.ofFailures tree.here failures
      return (⟨tree, { cycle.report with validation := some outcome }⟩, false)

/-- The mode in which a dialog is to be closed: the first argument of the call that fires. -/
def closeMode? (cycle : Cycle) : Option CloseMode :=
  (cycle.tree.firing.bind fun firing => firing.arguments.head?).bind CloseMode.ofName?

/-- The index of the step with a name in the stepper at a path. -/
def stepIndex? (stepper : Path) (name : String) (cycle : Cycle) : Option Nat :=
  match cycle.tree.node? stepper with
  | some (.collection _ (some _) members) => (Assoc.keys members).findIdx? (· == name)
  | _ => none

/-- Carries out an inducer that has fired, and answers whether it succeeded. Only an activation can
fail. -/
def execute (event : InducedEvent) (cycle : Cycle) : Cycle × Bool :=
  match event.induction with
  | .opens =>
    ({ cycle with tree := cycle.tree.change event.path (Node.modifyForm fun _ => Form.openDialog) }, true)
  | .closes =>
    match cycle.closeMode? with
    | none => (cycle, true)
    | some mode =>
      let tree := cycle.tree.change event.path (Node.modifyForm fun _ => Form.closeDialog event.path mode)
      ({ cycle with tree := tree.refresh }, true)
  | .activates =>
    match cycle.stepIndex? event.path.enclosing event.path.name with
    | none => (cycle, true)
    | some index =>
      match cycle.navigate event.path.enclosing index with
      | .ok outcome => outcome
      | .error _ => (cycle, false)

/-- Carries out inducers one after the other, and answers whether all of them succeeded. -/
def executeAll : List InducedEvent → Cycle → Cycle × Bool
  | [], cycle => (cycle, true)
  | event :: rest, cycle =>
    let (after, succeeded) := cycle.execute event
    let reported := { after with report := { after.report with induced := after.report.induced ++ [event] } }
    let (final, allSucceeded) := executeAll rest reported
    (final, succeeded && allSucceeded)

/-- Brings a tree to rest after a change, and answers whether everything succeeded that was induced. -/
def settle (cycle : Cycle) : Cycle × Bool :=
  let fresh := cycle.tree.refresh
  let (after, succeeded) := executeAll fresh.rising { cycle with tree := fresh.latch }
  ({ after with tree := { after.tree with firing := none }.refresh.latch }, succeeded)

end Cycle

end Formwork
