import Formwork.Outline.Reader
import Formwork.Plan.Decoder

/-!
# Descriptions as text

A description may be written in YAML, and therefore also in JSON. The two entries of the whole
description are read as they are written: the key by its raw text, and the prefix by its
raw text unless it is null. Everything below the root is read by its meaning.
-/

set_option autoImplicit false

namespace Formwork.Blueprint

/-- What is said of a text that is no description. -/
def textMessage : String :=
  "Unsupported description document. Expected a 'root' node with 'type: form | collection | stepper'"

/-- The values of the entries of a map whose key has the given raw text. -/
def valuesAt (name : String) (entries : List (Outline × Outline)) : List Outline :=
  entries.filterMap fun (key, value) => if key.rawText? = some name then some value else none

/-- The prefix that an entry gives. -/
def prefixText? (value : Outline) : Option (Option String) :=
  if value.isNull then some none else value.rawText?.map some

/-- The blueprint of a text. Neither of the two entries may be repeated. -/
def ofText? (text : String) : Option Blueprint := do
  let outline ← Outline.read? text
  let entries ← outline.mapEntries?
  if entries.any fun (key, _) => key.rawText?.isNone then none
  let namespaceText ← match valuesAt "prefix" entries with
    | [] => some none
    | [value] => prefixText? value
    | _ => none
  let root ← match valuesAt "root" entries with
    | [value] => some value
    | _ => none
  let document ← root.toDocument? (Outline.maximalDepth - 1)
  let plan ← root? document
  ofPlan? namespaceText plan

end Formwork.Blueprint
