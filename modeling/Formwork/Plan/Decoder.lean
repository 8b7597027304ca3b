import Formwork.Document
import Formwork.Plan

/-!
# Plans from documents

A description is a record with an optional `prefix` and a `root`. A node says by its `type`
whether it is a form, a collection or a stepper. A member of a form is a fieldset
if it has a valid entry `fieldset`, and a field otherwise. Unknown entries are
refused in fields and ignored everywhere else; null stands for an absent optional
entry only.

The records of fields, collections, steppers and dialogs may also be written as lists of their
values in the order of the entries, and below the root a type as its position.
-/

set_option autoImplicit false

namespace Formwork

open Document

/-- The names of the conditions of a form or fieldset. -/
def conditionNames : List String :=
  ["show_condition", "hide_condition", "disable_condition", "induce_activate", "induce_open", "induce_close"]

/-- The conditions among the entries of a record. -/
def Conditions.ofEntries? (found : List (String × Document)) : Option Conditions := do
  let showWhile ← entry found "show_condition" none optionalText?
  let hideWhile ← entry found "hide_condition" none optionalText?
  let disableWhile ← entry found "disable_condition" none optionalText?
  let activateWhen ← entry found "induce_activate" none optionalText?
  let openWhen ← entry found "induce_open" none optionalText?
  let closeWhen ← entry found "induce_close" none optionalText?
  return ⟨showWhile, hideWhile, disableWhile, activateWhen, openWhen, closeWhen⟩

/-- The legend, help text and conditions among the entries of a record. -/
def GroupPlan.ofEntries? (found : List (String × Document)) : Option GroupPlan := do
  let legend ← entry found "legend" none optionalText?
  let helpText ← entry found "help_text" none optionalText?
  let conditions ← Conditions.ofEntries? found
  return ⟨legend, helpText, conditions⟩

def DialogPlan.ofDocument? (document : Document) : Option DialogPlan := do
  let found ← record? ["title", "modal"] false document
  let title ← entry found "title" none optionalText?
  let modal ← entry found "modal" false bool?
  return ⟨title, modal⟩

/-! ## Fields -/

/-- A name from a fixed set: a text, or a map of that text or of its position to null. -/
def nameOf? {α : Type} (ofLabel? : String → Option α) (all : List α) : Document → Option α
  | .text name => ofLabel? name
  | .map [(.text name, .null)] => ofLabel? name
  | .map [(.integer position, .null)] => if 0 ≤ position then all[position.toNat]? else none
  | _ => none

/-- An option: a bare text, or a record of a value and its label. -/
def Choice.ofDocument? : Document → Option Choice
  | .text value => some (.plain value)
  | .map entries => do
    let found ← declared? ["value", "label"] false entries
    let value ← (Assoc.get? "value" found).bind text?
    let label ← (Assoc.get? "label" found).bind text?
    return .labelled value label
  | _ => none

/-- Entries of texts to texts. -/
def textEntries? : List (Document × Document) → Option (List (String × String))
  | [] => some []
  | (.text key, .text value) :: rest => (textEntries? rest).map fun entries => (key, value) :: entries
  | _ => none

/-- A map of texts to texts. -/
def textMap? : Document → Option (List (String × String))
  | .map entries => (textEntries? entries).map Assoc.ofList
  | _ => none

def fieldNames : List String :=
  ["label", "help_text", "widget", "required", "initial", "choices", "min_length", "max_length",
    "pattern", "error_messages", "show_condition", "hide_condition", "disable_condition",
    "require_condition", "action", "button_variant"]

def FieldPlan.ofDocument? (document : Document) : Option FieldPlan := do
  let found ← record? fieldNames true document
  let label ← entry found "label" none optionalText?
  let helpText ← entry found "help_text" none optionalText?
  let widget ← entry found "widget" Widget.text (nameOf? Widget.ofLabel? Widget.all)
  let required ← entry found "required" true bool?
  let initial ← entry found "initial" none (optional? toJson?)
  let choices ← entry found "choices" [] (listOf? Choice.ofDocument?)
  let minLength ← entry found "min_length" none optionalSize?
  let maxLength ← entry found "max_length" none optionalSize?
  let pattern ← entry found "pattern" none optionalText?
  let errorMessages ← entry found "error_messages" [] textMap?
  let showWhile ← entry found "show_condition" none optionalText?
  let hideWhile ← entry found "hide_condition" none optionalText?
  let disableWhile ← entry found "disable_condition" none optionalText?
  let requireWhile ← entry found "require_condition" none optionalText?
  let action ← entry found "action" none optionalText?
  let variant ← entry found "button_variant" none (optional? (nameOf? Variant.ofLabel? Variant.all))
  return {
    label, helpText, widget, required, initial, choices, minLength, maxLength, pattern,
    errorMessages, showWhile, hideWhile, disableWhile, requireWhile, action, variant }

/-! ## Members of forms -/

def fieldsetNames : List String := ["legend", "help_text", "members"] ++ conditionNames

def formNames : List String := ["legend", "help_text", "dialog", "members"] ++ conditionNames

/-- The value at a text key of a map, if it stands there exactly once. -/
def textEntry? (name : String) (entries : List (Document × Document)) : Option Document :=
  match entries.filter fun (key, _) => key.text? == some name with
  | [(_, value)] => some value
  | _ => none

/-- The members of a record: the value of its entry `members`, which is a map. -/
def membersOf? (found : List (String × Document)) : Option (List (Document × Document)) :=
  match Assoc.get? "members" found with
  | none => some []
  | some (.map entries) => some entries
  | some _ => none

mutual
/-- A member of a form or fieldset; `fuel` bounds the depth of fieldsets. -/
def MemberPlan.ofDocument? : Nat → Document → Option MemberPlan
  | 0, _ => none
  | fuel + 1, document =>
    let asFieldset : Option MemberPlan := match document with
      | .map entries => do
        let outer ← declared? ["fieldset"] false entries
        let inner ← Assoc.get? "fieldset" outer
        let found ← openRecord? fieldsetNames inner
        let plan ← GroupPlan.ofEntries? found
        let members ← MemberPlan.ofEntries? fuel (← membersOf? found)
        return .fieldset plan (Assoc.ofList members)
      | _ => none
    asFieldset.orElse fun _ => (FieldPlan.ofDocument? document).map .field

/-- The members of a form or fieldset, with repeated names as they stand. -/
def MemberPlan.ofEntries? : Nat → List (Document × Document) → Option (List (String × MemberPlan))
  | 0, _ => none
  | _ + 1, [] => some []
  | fuel + 1, (key, value) :: rest =>
    match key.text?, MemberPlan.ofDocument? fuel value, MemberPlan.ofEntries? fuel rest with
    | some name, some member, some members => some ((name, member) :: members)
    | _, _, _ => none
end

/-! ## Nodes -/

def collectionNames : List String :=
  ["legend", "help_text", "add_label", "related_field", "min_siblings", "max_siblings",
    "extra_siblings", "induce_activate", "members"]

def CollectionPlan.ofEntries? (found : List (String × Document)) : Option CollectionPlan := do
  let legend ← entry found "legend" none optionalText?
  let helpText ← entry found "help_text" none optionalText?
  let addLabel ← entry found "add_label" none optionalText?
  let relatedField ← entry found "related_field" none optionalText?
  let minSiblings ← entry found "min_siblings" none optionalSize?
  let maxSiblings ← entry found "max_siblings" none optionalSize?
  let extraSiblings ← entry found "extra_siblings" none optionalSize?
  let activateWhen ← entry found "induce_activate" none optionalText?
  return ⟨legend, helpText, addLabel, relatedField, minSiblings, maxSiblings, extraSiblings, activateWhen⟩

/-- The three types of a node. -/
def nodeTypes : List String := ["form", "collection", "stepper"]

/-- The type of a node and what remains of its document. -/
def nodeType? (nested : Bool) : Document → Option (String × Document)
  | .map entries => do
    let declared ← textEntry? "type" entries
    let name ← typeName? declared
    return (name, .map (entries.filter fun (key, _) => key.text? != some "type"))
  | .list (declared :: rest) => (typeName? declared).map fun name => (name, .list rest)
  | _ => none
where
  typeName? (declared : Document) : Option String :=
    if nested then declaredName? nodeTypes declared
    else declared.text?.filter fun name => nodeTypes.contains name

/-- How many entries and levels a document has at most; readers of documents take this many
steps. -/
def Document.weight : Document → Nat
  | .list items => weightItems items + 1
  | .map entries => weightEntries entries + 1
  | _ => 1
where
  /-- The weight of the items of a list. -/
  weightItems : List Document → Nat
    | [] => 0
    | item :: rest => item.weight + weightItems rest + 1
  /-- The weight of the entries of a map. -/
  weightEntries : List (Document × Document) → Nat
    | [] => 0
    | (_, value) :: rest => value.weight + weightEntries rest + 2

mutual
/-- A node; `fuel` bounds the depth of collections. -/
def NodePlan.ofDocument? : Nat → Bool → Document → Option NodePlan
  | 0, _, _ => none
  | fuel + 1, nested, document =>
    match nodeType? nested document with
    | none => none
    | some (name, rest) =>
      if name = "form" then do
        let found ← openRecord? formNames rest
        let plan ← GroupPlan.ofEntries? found
        let dialog ← entry found "dialog" none (optional? DialogPlan.ofDocument?)
        let entries ← membersOf? found
        let members ← MemberPlan.ofEntries? fuel entries
        return .form plan dialog (Assoc.ofList members)
      else do
        let found ← record? collectionNames false rest
        let plan ← CollectionPlan.ofEntries? found
        let entries ← membersOf? found
        let members ← NodePlan.ofEntries? fuel entries
        return if name = "stepper" then .stepper plan (Assoc.ofList members)
          else .collection plan (Assoc.ofList members)

/-- The members of a collection or stepper, with repeated names as they stand. -/
def NodePlan.ofEntries? : Nat → List (Document × Document) → Option (List (String × NodePlan))
  | 0, _ => none
  | _ + 1, [] => some []
  | fuel + 1, (key, value) :: rest =>
    match key.text?, NodePlan.ofDocument? fuel true value, NodePlan.ofEntries? fuel rest with
    | some name, some node, some nodes => some ((name, node) :: nodes)
    | _, _, _ => none
end

namespace Blueprint

/-- A blueprint of a plan whose names are distinct. -/
def ofPlan? (namespaceText : Option String) (root : NodePlan) : Option Blueprint :=
  if distinct : root.hasDistinctNames = true then some ⟨namespaceText, root, distinct⟩ else none

/-- The root of a description. -/
def root? (document : Document) : Option NodePlan :=
  NodePlan.ofDocument? (document.weight + 2) false document

/-- The blueprint of a JSON value. -/
def ofJson? (json : Json) : Option Blueprint := do
  let found ← record? ["prefix", "root"] false (.ofJson json)
  let namespaceText ← entry found "prefix" none optionalText?
  let root ← Assoc.get? "root" found
  let plan ← root? root
  ofPlan? namespaceText plan

end Blueprint

end Formwork
