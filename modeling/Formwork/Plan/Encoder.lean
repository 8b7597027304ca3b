import Formwork.Plan

/-!
# Plans as JSON

A plan is written back with every declared entry in its order, defaults filled in.
-/

set_option autoImplicit false

namespace Formwork

open Json

/-- A size, or null where there is none. -/
def Json.optionalNatural : Option Nat → Json
  | none => .null
  | some value => .natural value

/-- The entries of the conditions of a form or fieldset. -/
def Conditions.entries (conditions : Conditions) : List (String × Json) := [
  ("show_condition", optionalText conditions.showWhile),
  ("hide_condition", optionalText conditions.hideWhile),
  ("disable_condition", optionalText conditions.disableWhile),
  ("induce_activate", optionalText conditions.activateWhen),
  ("induce_open", optionalText conditions.openWhen),
  ("induce_close", optionalText conditions.closeWhen)]

/-- The legend, help text and conditions of a form or fieldset. -/
def GroupPlan.entries (plan : GroupPlan) : List (String × Json) :=
  ("legend", optionalText plan.legend) :: ("help_text", optionalText plan.helpText) :: plan.conditions.entries

def Choice.toJson : Choice → Json
  | .plain value => .text value
  | .labelled value label => .object [("value", .text value), ("label", .text label)]

def DialogPlan.toJson (dialog : DialogPlan) : Json :=
  .object [("title", optionalText dialog.title), ("modal", .bool dialog.modal)]

def FieldPlan.toJson (plan : FieldPlan) : Json := .object [
  ("label", optionalText plan.label),
  ("help_text", optionalText plan.helpText),
  ("widget", .text plan.widget.label),
  ("required", .bool plan.required),
  ("initial", plan.initial.getD .null),
  ("choices", .list (plan.choices.map Choice.toJson)),
  ("min_length", optionalNatural plan.minLength),
  ("max_length", optionalNatural plan.maxLength),
  ("pattern", optionalText plan.pattern),
  ("error_messages", .object (plan.errorMessages.map fun (key, message) => (key, .text message))),
  ("show_condition", optionalText plan.showWhile),
  ("hide_condition", optionalText plan.hideWhile),
  ("disable_condition", optionalText plan.disableWhile),
  ("require_condition", optionalText plan.requireWhile),
  ("action", optionalText plan.action),
  ("button_variant", optionalText (plan.variant.map Variant.label))]

mutual
def MemberPlan.toJson : MemberPlan → Json
  | .field plan => plan.toJson
  | .fieldset plan members =>
    .object [("fieldset", .object (plan.entries ++ [("members", .object (MemberPlan.toFields members))]))]

/-- The members of a form or fieldset as fields of an object. -/
def MemberPlan.toFields : List (String × MemberPlan) → List (String × Json)
  | [] => []
  | (name, member) :: rest => (name, member.toJson) :: MemberPlan.toFields rest
end

/-- The entries of a collection or stepper in front of its members. -/
def CollectionPlan.entries (plan : CollectionPlan) : List (String × Json) := [
  ("legend", optionalText plan.legend),
  ("help_text", optionalText plan.helpText),
  ("add_label", optionalText plan.addLabel),
  ("related_field", optionalText plan.relatedField),
  ("min_siblings", optionalNatural plan.minSiblings),
  ("max_siblings", optionalNatural plan.maxSiblings),
  ("extra_siblings", optionalNatural plan.extraSiblings),
  ("induce_activate", optionalText plan.activateWhen)]

mutual
def NodePlan.toJson : NodePlan → Json
  | .form plan dialog members =>
    .object (("type", .text "form") :: plan.entries ++
      [("dialog", match dialog with
        | some dialog => dialog.toJson
        | none => .null),
      ("members", .object (MemberPlan.toFields members))])
  | .collection plan members =>
    .object (("type", .text "collection") :: plan.entries ++ [("members", .object (NodePlan.toFields members))])
  | .stepper plan members =>
    .object (("type", .text "stepper") :: plan.entries ++ [("members", .object (NodePlan.toFields members))])

/-- The members of a collection or stepper as fields of an object. -/
def NodePlan.toFields : List (String × NodePlan) → List (String × Json)
  | [] => []
  | (name, node) :: rest => (name, node.toJson) :: NodePlan.toFields rest
end

/-- A description as JSON. -/
def Blueprint.toJson (blueprint : Blueprint) : Json :=
  .object [("prefix", optionalText blueprint.namespaceText), ("root", blueprint.root.toJson)]

end Formwork
