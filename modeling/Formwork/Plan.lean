import Formwork.Json

/-!
# Plans

A plan is what a tree is built from: forms that hold fields and fieldsets, collections that hold
forms and further collections, and steppers whose members are visited one after the other.
Members are listed in the order in which they are shown. A `Blueprint` is a whole
description: a plan for the root and an optional path in front of all others.

No two members of one form or collection have the same name; the blueprint carries this as a
proof.
-/

set_option autoImplicit false

namespace Formwork

/-- How a field is presented, which decides the kind of its value. -/
inductive Widget where
  | text
  | textarea
  | email
  | number
  | checkbox
  | select
  | radio
  | selectMultiple
  | hidden
  /-- A button, which runs an action and holds no value. -/
  | button
deriving DecidableEq, Repr

namespace Widget

/-- All widgets, in their order. -/
def all : List Widget :=
  [.text, .textarea, .email, .number, .checkbox, .select, .radio, .selectMultiple, .hidden, .button]

def label : Widget → String
  | .text => "text"
  | .textarea => "textarea"
  | .email => "email"
  | .number => "number"
  | .checkbox => "checkbox"
  | .select => "select"
  | .radio => "radio"
  | .selectMultiple => "select_multiple"
  | .hidden => "hidden"
  | .button => "button"

/-- The widget with a name. -/
def ofLabel? (name : String) : Option Widget := all.find? fun widget => widget.label == name

end Widget

/-- How a button stands out. -/
inductive Variant where
  | primary
  | secondary
  | success
  | danger
  | warning
  | info
deriving DecidableEq, Repr

namespace Variant

/-- All variants, in their order. -/
def all : List Variant := [.primary, .secondary, .success, .danger, .warning, .info]

def label : Variant → String
  | .primary => "primary"
  | .secondary => "secondary"
  | .success => "success"
  | .danger => "danger"
  | .warning => "warning"
  | .info => "info"

/-- The variant with a name. -/
def ofLabel? (name : String) : Option Variant := all.find? fun variant => variant.label == name

end Variant

/-- An option of a field with choices: a bare value, or a value with a label. -/
inductive Choice where
  | plain (value : String)
  | labelled (value label : String)
deriving DecidableEq, Repr

def Choice.value : Choice → String
  | .plain value => value
  | .labelled value _ => value

def Choice.label : Choice → String
  | .plain value => value
  | .labelled _ label => label

/-- The conditions of a form or fieldset, as they are written. -/
structure Conditions where
  showWhile : Option String
  hideWhile : Option String
  disableWhile : Option String
  /-- Activates the enclosing step of a stepper when it turns true. -/
  activateWhen : Option String
  /-- Opens the dialog when it turns true. -/
  openWhen : Option String
  /-- Closes the dialog when it turns true. -/
  closeWhen : Option String
deriving DecidableEq, Repr

/-- No conditions. -/
def Conditions.absent : Conditions := ⟨none, none, none, none, none, none⟩

/-- A form inside a dialog. -/
structure DialogPlan where
  title : Option String
  /-- A modal dialog blocks the rest of the page. -/
  modal : Bool
deriving DecidableEq, Repr

def DialogPlan.plain : DialogPlan := ⟨none, false⟩

/-- A field. -/
structure FieldPlan where
  label : Option String
  helpText : Option String
  widget : Widget
  required : Bool
  initial : Option Json
  choices : List Choice
  minLength : Option Nat
  maxLength : Option Nat
  pattern : Option String
  /-- Messages in place of the usual ones, by the key of the rule. -/
  errorMessages : List (String × String)
  showWhile : Option String
  hideWhile : Option String
  disableWhile : Option String
  /-- Makes the field required while it is true, in place of `required`. -/
  requireWhile : Option String
  /-- What a click on a button does. -/
  action : Option String
  variant : Option Variant
deriving Repr

namespace FieldPlan

/-- A required text field. -/
def standard : FieldPlan where
  label := none
  helpText := none
  widget := .text
  required := true
  initial := none
  choices := []
  minLength := none
  maxLength := none
  pattern := none
  errorMessages := []
  showWhile := none
  hideWhile := none
  disableWhile := none
  requireWhile := none
  action := none
  variant := none

def isButton (plan : FieldPlan) : Bool := plan.widget == .button

end FieldPlan

/-- What a form and a fieldset declare besides their members. -/
structure GroupPlan where
  legend : Option String
  helpText : Option String
  conditions : Conditions
deriving DecidableEq, Repr

/-- A member of a form or fieldset. -/
inductive MemberPlan where
  | field (plan : FieldPlan)
  | fieldset (plan : GroupPlan) (members : List (String × MemberPlan))

/-- What a collection or stepper declares besides its members. -/
structure CollectionPlan where
  legend : Option String
  helpText : Option String
  /-- The label of the button that adds a sibling. -/
  addLabel : Option String
  /-- A relation of the server's data, carried along. -/
  relatedField : Option String
  minSiblings : Option Nat
  maxSiblings : Option Nat
  extraSiblings : Option Nat
  activateWhen : Option String
deriving DecidableEq, Repr

namespace CollectionPlan

def plain : CollectionPlan := ⟨none, none, none, none, none, none, none, none⟩

/-- A collection with any declaration about siblings is repeatable. -/
def isRepeatable (plan : CollectionPlan) : Bool :=
  plan.minSiblings.isSome || plan.maxSiblings.isSome || plan.extraSiblings.isSome

end CollectionPlan

/-- A form, collection or stepper. -/
inductive NodePlan where
  | form (plan : GroupPlan) (dialog : Option DialogPlan) (members : List (String × MemberPlan))
  | collection (plan : CollectionPlan) (members : List (String × NodePlan))
  | stepper (plan : CollectionPlan) (members : List (String × NodePlan))

/-! ## Distinct names -/

mutual
/-- Whether no two members with one name stand side by side beneath a member. -/
def MemberPlan.hasDistinctNames : MemberPlan → Bool
  | .field _ => true
  | .fieldset _ members => Assoc.distinct (Assoc.keys members) && MemberPlan.haveDistinctNames members

/-- `hasDistinctNames` for all members of a list. -/
def MemberPlan.haveDistinctNames : List (String × MemberPlan) → Bool
  | [] => true
  | (_, member) :: rest => member.hasDistinctNames && MemberPlan.haveDistinctNames rest
end

mutual
/-- Whether no two members with one name stand side by side at or beneath a node. -/
def NodePlan.hasDistinctNames : NodePlan → Bool
  | .form _ _ members => Assoc.distinct (Assoc.keys members) && MemberPlan.haveDistinctNames members
  | .collection _ members => Assoc.distinct (Assoc.keys members) && NodePlan.haveDistinctNames members
  | .stepper _ members => Assoc.distinct (Assoc.keys members) && NodePlan.haveDistinctNames members

/-- `hasDistinctNames` for all nodes of a list. -/
def NodePlan.haveDistinctNames : List (String × NodePlan) → Bool
  | [] => true
  | (_, node) :: rest => node.hasDistinctNames && NodePlan.haveDistinctNames rest
end

/-- A whole description. -/
structure Blueprint where
  /-- The dotted path in front of every path of the tree. -/
  namespaceText : Option String
  root : NodePlan
  distinct : root.hasDistinctNames = true

end Formwork
