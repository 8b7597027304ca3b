import Formwork.Condition
import Formwork.Action.Reader
import Formwork.Constraint
import Formwork.Plan

/-!
# Fields

A mounted field: its value, what is known about its validity, and whether it is hidden,
disabled and required at the moment. A button is a field with an action in place of a
value.

A value is fitted to the widget whenever it is stored (`Widget.fit`), so a checkbox always
holds a flag, a multiple selection a list and every other widget a text. Validation has
two forms: `check` only answers, `validate` also records the answer.
-/

set_option autoImplicit false

namespace Formwork

open Formwork.Text

/-! ## Fitting values to widgets -/

/-- Whether the text of a checkbox means that it is checked. -/
def meansChecked (text : String) : Bool :=
  let word := lowerAscii (trim text.toList)
  !(word = [] || word = "false".toList || word = "off".toList || word = "0".toList)

/-- The value in the kind that a widget stores. -/
def Widget.fit (widget : Widget) (value : Value) : Value :=
  match widget, value with
  | .checkbox, .text content => .flag (meansChecked content)
  | .checkbox, .many choices => .flag (!choices.isEmpty)
  | .checkbox, .flag checked => .flag checked
  | .selectMultiple, .text content => .many (if content.isEmpty then [] else [content])
  | .selectMultiple, .flag _ => .many []
  | .selectMultiple, .many choices => .many choices
  | .button, _ => .text ""
  | _, other => .text other.asText

/-- Fitting a second time changes nothing. -/
theorem Widget.fit_fit (widget : Widget) (value : Value) :
    widget.fit (widget.fit value) = widget.fit value := by
  cases widget <;> cases value <;> simp [Widget.fit, Value.asText]

/-! ## The state of a field -/

/-- What is known about the validity of a field. -/
inductive Validity where
  | untouched
  | valid
  | invalid (messages : List String)
deriving DecidableEq, Repr

/-- The messages of an invalid field. -/
def Validity.messages : Validity → List String
  | .invalid messages => messages
  | _ => []

/-- What a button does. -/
structure Button where
  pipeline : Pipeline
  variant : Variant
  /-- Set by the action `disable` and cleared by `enable`. -/
  selfDisabled : Bool
deriving DecidableEq, Repr

/-- A mounted field. -/
structure Field where
  plan : FieldPlan
  visibility : Visibility
  disableWhile : Option Expression
  requireWhile : Option Expression
  rules : TextRules
  button : Option Button
  /-- The value at mounting, which a reset restores. -/
  initial : Value
  value : Value
  validity : Validity
  hidden : Bool
  disabled : Bool
  required : Bool
deriving Repr

namespace Field

/-- The message of an empty field that is required. -/
def requiredMessage : String := "This field is required."

def numberMessage : String := "Enter a number."

def emailMessage : String := "Enter a valid email address."

def isButton (field : Field) : Bool := field.button.isSome

/-- Whether the field takes part in validation and in the collected data. -/
def isOperable (field : Field) : Bool := !field.hidden && !field.disabled && !field.isButton

/-- The messages that the field shows. -/
def errors (field : Field) : List String := field.validity.messages

/-! ## Building -/

/-- The initial value of a field for initial data that may be absent. -/
def initialValue (plan : FieldPlan) (initial : Option Json) : Value :=
  plan.widget.fit
    (match initial.orElse fun _ => plan.initial with
    | some json => .ofJson json
    | none => .text "")

/-- Reads the pattern of a field at a path. -/
def compilePattern (path : Path) : Option String → Except MountError (Option Pattern)
  | none => .ok none
  | some source =>
    match Pattern.parse? source with
    | some pattern => .ok (some pattern)
    | none => .error (.invalidPattern path)

/-- The button of a field at a path, if its widget is one. -/
def compileButton (path : Path) (plan : FieldPlan) : Except MountError (Option Button) :=
  if plan.isButton then
    let variant := plan.variant.getD .primary
    match plan.action with
    | none => .ok (some ⟨.standard, variant, false⟩)
    | some source =>
      match Pipeline.parse source with
      | .ok pipeline => .ok (some ⟨pipeline, variant, false⟩)
      | .error problem => .error (.invalidAction path problem)
  else .ok none

/-- The field of a plan at a path, with the initial value that the plan declares. -/
def build (path : Path) (plan : FieldPlan) : Except MountError Field := do
  let visibility ← Visibility.compile path plan.showWhile plan.hideWhile
  let disableWhile ← compileOptional path .disabling plan.disableWhile
  let requireWhile ← compileOptional path .requiring plan.requireWhile
  let pattern ← compilePattern path plan.pattern
  let button ← compileButton path plan
  return {
    plan, visibility, disableWhile, requireWhile, button
    rules := ⟨plan.minLength, plan.maxLength, pattern⟩
    initial := initialValue plan none
    value := initialValue plan none
    validity := .untouched
    hidden := false
    disabled := false
    required := plan.required && !plan.isButton }

/-- The field with the initial value that initial data give it. -/
def fill (initial : Option Json) (field : Field) : Field :=
  let value := initialValue field.plan initial
  { field with initial := value, value := value }

/-! ## Validation -/

/-- Whether a text has the form of an email address: something without blanks before the
last `@`, and behind it a text without blanks that has a dot inside. -/
def looksLikeEmail (text : List Char) : Bool :=
  match splitLast? '@' text with
  | none => false
  | some (mailbox, domain) =>
    !mailbox.isEmpty && !mailbox.any isBlank && domain.head? != some '.' && domain.getLast? != some '.' &&
      domain.contains '.' && !domain.any isBlank

/-- The violation of a value that is not among the choices of the field. -/
def choiceViolation? (field : Field) (choice : String) : Option Violation :=
  if field.plan.choices.isEmpty || field.plan.choices.any fun option => option.value == choice then none
  else some (.invalidChoice choice)

/-- The first rule of the widget that a value breaks which is not empty. -/
def widgetViolation? (field : Field) : Option Violation :=
  match field.plan.widget, field.value with
  | .checkbox, _ => none
  | .select, .text choice => field.choiceViolation? choice
  | .radio, .text choice => field.choiceViolation? choice
  | .selectMultiple, .many choices => choices.findSome? field.choiceViolation?
  | .number, .text content =>
    if isNumeric (trim content.toList) then field.rules.violation? content else some .invalid
  | .email, .text content =>
    (field.rules.violation? content).orElse fun _ =>
      if looksLikeEmail content.toList then none else some .invalid
  | _, value => field.rules.violation? value.asText

/-- The message that the field declares for a key, or else the usual one. -/
def messageFor (field : Field) (key usual : String) : String :=
  (Assoc.get? key field.plan.errorMessages).getD usual

/-- The message of a violation. -/
def violationMessage (field : Field) (violation : Violation) : String :=
  let usual := match violation, field.plan.widget with
    | .invalid, .number => numberMessage
    | .invalid, .email => emailMessage
    | _, _ => violation.message
  field.messageFor violation.messageKey usual

/-- What is wrong with the value; a valid field has no messages. -/
def check (field : Field) : List String :=
  if field.isButton then []
  else if field.value.isEmpty then
    if field.required then [field.messageFor "required" requiredMessage] else []
  else
    match field.widgetViolation? with
    | none => []
    | some violation => [field.violationMessage violation]

/-- Whether nothing is wrong with the value. -/
def isValid (field : Field) : Bool := field.check.isEmpty

/-- The field with the outcome of the check recorded. -/
def validate (field : Field) : Field :=
  { field with validity := if field.check.isEmpty then .valid else .invalid field.check }

/-! ## Changes -/

/-- Stores a value. A field that shows errors is validated again, so that an error which is
gone disappears. -/
def setValue (value : Value) (field : Field) : Field :=
  let changed := { field with value := field.plan.widget.fit value }
  match field.validity with
  | .invalid _ => changed.validate
  | _ => changed

/-- Records messages from elsewhere; no messages mean that the field is valid. -/
def setErrors (messages : List String) (field : Field) : Field :=
  { field with validity := if messages.isEmpty then .valid else .invalid messages }

/-- Forgets what is known about the validity. -/
def clearErrors (field : Field) : Field := { field with validity := .untouched }

/-- Restores the value at mounting. -/
def reset (field : Field) : Field := { field with value := field.initial, validity := .untouched }

/-- Marks a button as disabled or enabled by itself. -/
def setSelfDisabled (disabled : Bool) (field : Field) : Field :=
  { field with button := field.button.map fun button => { button with selfDisabled := disabled } }

/-- The value as it is sent; a hidden field sends the blank value of its kind. -/
def wireValue (field : Field) : Json :=
  if field.hidden then field.value.blank.toWire else field.value.toWire

/-- Whether the field is in the payload of a submission. -/
def isSent (field : Field) : Bool := !field.isButton && !field.disabled

/-- The field with its flags derived anew, inside a form or fieldset at `scope` that is hidden
or disabled as given. -/
def refresh (lookup : Lookup) (scope : Path) (hiddenAbove disabledAbove : Bool) (field : Field) : Field :=
  { field with
    hidden := hiddenAbove || field.visibility.hides scope lookup
    disabled := disabledAbove || holdsOptional scope lookup field.disableWhile ||
      (match field.button with
      | some button => button.selfDisabled
      | none => false)
    required := !field.isButton &&
      (match field.requireWhile with
      | some condition => condition.evaluate scope lookup
      | none => field.plan.required) }

/-- What the path of the field reads as. -/
def reading (active : Bool) (field : Field) : Reading :=
  if field.isButton then .button active else .value field.value

end Field

end Formwork
