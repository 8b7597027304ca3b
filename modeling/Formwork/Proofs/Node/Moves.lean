import Formwork.Node.Stepping

/-!
# Elementary changes of a node

What is done to a form without adding or removing a member is one of a few things (`Form.Move`), and a frame can
only remember its inducer anew (`Frame.Move`). A node is changed by changing all its forms and frames, or
the form on the way to some place, or the marks of the siblings on the way; and in one of the nodes
beneath it everything can be checked, or a step be reached (`Node.Move`). What each of these keeps is kept
by everything that happens to a tree between two siblings that come or go.
-/

set_option autoImplicit false

namespace Formwork

/-- An elementary change of a form. -/
inductive Form.Move : Form → Form → Prop where
  | stay (content : Form) : Move content content
  | refresh (content : Form) (lookup : Lookup) (path : Path) : Move content (content.refresh lookup path)
  | latch (content : Form) (lookup : Lookup) (path : Path) : Move content (content.latch lookup path)
  | validate (content : Form) (path : Path) : Move content (content.validate path)
  | validateAt (content : Form) (path : Path) (names : List String) : Move content (content.validateAt path names)
  | setErrors (content : Form) (messages : List String) (names : List String) :
      Move content (content.modifyField (Field.setErrors messages) names)
  | setValue (content : Form) (value : Value) (names : List String) :
      Move content (content.modifyField (Field.setValue value) names)
  | setSelfDisabled (content : Form) (disabled : Bool) (names : List String) :
      Move content (content.modifyField (Field.setSelfDisabled disabled) names)
  | addErrors (content : Form) (messages : List String) (names : List String) :
      Move content (content.modifyGroup (Group.addErrors messages) names)
  | clearErrors (content : Form) : Move content content.clearErrors
  | reset (content : Form) : Move content content.reset
  | openDialog (content : Form) : Move content content.openDialog
  | closeDialog (content : Form) (path : Path) (mode : CloseMode) :
      Move content (content.closeDialog path mode)

/-- An elementary change of a frame. -/
inductive Frame.Move : Frame → Frame → Prop where
  | stay (frame : Frame) : Move frame frame
  | latch (frame : Frame) (lookup : Lookup) (path : Path) : Move frame (frame.latch lookup path)

/-- An elementary change of a node. -/
inductive Node.Move : Node → Node → Prop where
  /-- All forms and frames change where they stand. -/
  | everywhere {onForm : Path → Form → Form} {onFrame : Path → Frame → Frame}
      (forms : ∀ place content, Form.Move content (onForm place content))
      (frames : ∀ place frame, Frame.Move frame (onFrame place frame))
      (liveOnly : Bool) (path : Path) (node : Node) : Move node (node.map liveOnly onForm onFrame path)
  /-- The form on the way along some segments changes. -/
  | onTheWay {change : List String → Form → Form}
      (forms : ∀ names content, Form.Move content (change names content)) (segments : List String) (node : Node) :
      Move node (node.modifyForm change segments)
  | touch (segments : List String) (node : Node) : Move node (node.touch segments)
  | validatePart (place : Path) (segments : List String) (node : Node) :
      Move node (node.modify (Node.validate place) segments)
  | goTo {segments : List String} {place : Path} {index : Nat} {node inner moved : Node}
      {failures : List (Path × List String)} (stands : node.get? segments = some inner)
      (gone : inner.goTo place index = .ok (moved, failures)) :
      Move node (node.modify (fun _ => moved) segments)

namespace Node.Move

variable (node : Node)

theorem refresh (lookup : Lookup) (path : Path) : Move node (node.refresh lookup path) :=
  .everywhere (fun place content => .refresh content lookup place) (fun _ frame => .stay frame) false path node

theorem latch (lookup : Lookup) (path : Path) : Move node (node.latch lookup path) :=
  .everywhere (fun place content => .latch content lookup place) (fun place frame => .latch frame lookup place)
    false path node

theorem reset : Move node node.reset :=
  .everywhere (fun _ content => .reset content) (fun _ frame => .stay frame) false .root node

theorem clearErrors : Move node node.clearErrors :=
  .everywhere (fun _ content => .clearErrors content) (fun _ frame => .stay frame) false .root node

theorem validate (path : Path) : Move node (node.validate path) := by
  refine .everywhere (fun place content => ?_) (fun _ frame => .stay frame) true path node
  split
  · exact .stay content
  · exact .validate content place

end Node.Move

end Formwork
