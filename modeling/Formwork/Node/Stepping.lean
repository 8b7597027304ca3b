import Formwork.Node
import Formwork.Report

/-!
# Steps and siblings

The two kinds of change to the shape of a tree: going to a step of a stepper, and adding or
removing a sibling of a series.

A step can be gone to if it was visited before or comes right after the furthest visited one.
Going to a new step first validates all steps from the current one up to it, and stays where
it is if a field is invalid.
-/

set_option autoImplicit false

namespace Formwork.Node

/-! ## Steps -/

/-- The invalid fields of the steps from `first` up to, but not including, `last`. -/
def stepFailures (path : Path) (first last : Nat) (members : List (String × Node)) :
    List (Path × List String) :=
  ((members.take last).drop first).flatMap fun (name, node) => node.failures (path.join name)

/-- Records the outcome of the check in the steps from `first` up to, but not including, `last`. -/
def validateSteps (path : Path) (first last : Nat) (members : List (String × Node)) :
    List (String × Node) :=
  members.zipIdx.map fun ((name, node), index) =>
    (name, if first ≤ index ∧ index < last then node.validate (path.join name) else node)

/-- Goes to a step of the stepper at a path. The invalid fields that keep it from moving come with
the result; there are none if it moved or already was there. -/
def goTo (path : Path) (index : Nat) : Node → Except Rejection (Node × List (Path × List String))
  | .collection frame (some progress) members =>
    if progress.visited.length ≤ index then .error (.stepOutOfRange path index)
    else if index = progress.current then .ok (.collection frame (some progress) members, [])
    else if progress.furthest + 1 < index then .error (.stepNotReachable path index)
    else if progress.hasVisited index then
      .ok (.collection frame (some { progress with current := index }) members, [])
    else
      let failures := stepFailures path progress.current index members
      let reached := if failures.isEmpty then progress.moveTo index else progress
      .ok (.collection frame (some reached) (validateSteps path progress.current index members), failures)
  | _ => .error (.notAStepper path)

/-! ## Siblings -/

/-- Adds a blank sibling to the series at a path, behind a given one or at the end, and answers its
index. -/
def addSibling (path : Path) (after : Option Nat) : Node → Except Rejection (Node × Nat)
  | .series frame template siblings => do
    match frame.plan.maxSiblings with
    | some greatest =>
      if greatest ≤ siblings.length then throw (.maxSiblingsReached path greatest)
    | none => pure ()
    match after with
    | some index => if siblings.length ≤ index then throw (.siblingOutOfRange path index)
    | none => pure ()
    let position := match after with
      | some index => index + 1
      | none => siblings.length
    return (.series frame template (siblings.insertIdx position (.mk false template)), position)
  | .collection _ none _ => .error (.notRepeatable path)
  | _ => .error (.notACollection path)

/-- The number of siblings that were touched. -/
def liveCount (siblings : List Sibling) : Nat := siblings.countP fun sibling => !sibling.isPristine

/-- Removes a sibling of the series at a path. Pristine siblings do not count towards the least number
of siblings. -/
def removeSibling (path : Path) (index : Nat) : Node → Except Rejection Node
  | .series frame template siblings =>
    if siblings.length ≤ index then .error (.siblingOutOfRange path index)
    else
      let remaining := siblings.eraseIdx index
      if liveCount remaining < frame.least then .error (.minSiblingsReached path frame.least)
      else .ok (.series frame template remaining)
  | .collection _ none _ => .error (.notRepeatable path)
  | _ => .error (.notACollection path)

end Formwork.Node
