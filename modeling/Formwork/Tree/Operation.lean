import Formwork.Tree.Pipeline

/-!
# Operations on trees

What a user can do besides clicking a button: set a value, add and remove siblings, go to a step, and
restore everything. Each operation is refused while a submission waits for its outcome, and a
refused operation changes nothing, for it answers no tree at all.
-/

set_option autoImplicit false

namespace Formwork.Tree

/-- The report of a change, after the tree has been settled. -/
def settled (tree : Tree) (report : Report) : Cycle := (Cycle.settle ⟨tree, report⟩).1

/-- Sets the value of the field at a path. -/
def setValue (tree : Tree) (path : Path) (value : Value) : Except Rejection Cycle :=
  if tree.isBusy then .error .busy
  else
    match tree.field? path with
    | none => .error (.unknownPath path)
    | some field =>
      if field.isButton then .error (.notAValueField path)
      else if field.hidden then .error (.hidden path)
      else if field.disabled then .error (.disabled path)
      else .ok ((tree.store path value).settled .empty)

/-- Adds a sibling to the series at a path, behind a given one or at the end. -/
def addSibling (tree : Tree) (path : Path) (after : Option Nat) : Except Rejection Cycle :=
  if tree.isBusy then .error .busy
  else
    match tree.node? path with
    | none => .error (.unknownPath path)
    | some node => do
      let (extended, index) ← node.addSibling path after
      return (tree.change path (Node.modify fun _ => extended)).settled
        { Report.empty with sibling := some index }

/-- Removes a sibling of the series at a path. -/
def removeSibling (tree : Tree) (path : Path) (index : Nat) : Except Rejection Cycle :=
  if tree.isBusy then .error .busy
  else
    match tree.node? path with
    | none => .error (.unknownPath path)
    | some node => do
      let reduced ← node.removeSibling path index
      return (tree.change path (Node.modify fun _ => reduced)).settled .empty

/-- Goes to a step of the stepper at a path. Being kept back by invalid fields is not a refusal: it
is reported as the outcome of a validation. -/
def goToStep (tree : Tree) (path : Path) (index : Nat) : Except Rejection Cycle :=
  if tree.isBusy then .error .busy
  else do
    let (moved, _) ← (Cycle.start tree).navigate path index
    return moved.tree.settled moved.report

/-- Restores the values at mounting and forgets all messages. -/
def reset (tree : Tree) : Except Rejection Cycle :=
  if tree.isBusy then .error .busy else .ok (.start tree.restore)

end Formwork.Tree
