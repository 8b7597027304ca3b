import Formwork.Json
import Formwork.Text.Numeral
import Formwork.Text.Blank

/-!
# Initial data

The data that a tree is mounted with nest like the tree: an object for a form, a fieldset
or a collection, and for a series a list with one entry per sibling. Two other spellings
are accepted. A dotted key such as `customer.name` stands for nested objects
(`expandKeys`), and a series may be an object whose keys are the indices of its siblings
(`siblingEntries`).
-/

set_option autoImplicit false

namespace Formwork.InitialData

open Formwork.Text

/-- The value inside objects with one field each. -/
def nest (names : List String) (value : Json) : Json :=
  names.foldr (fun name inner => .object [(name, inner)]) value

mutual
/-- Puts a value at a key of an object. Two objects at the same key are merged, any other value is
replaced. -/
def merge (key : String) (value : Json) (fields : List (String × Json)) : List (String × Json) :=
  match value with
  | .object incoming =>
    match Assoc.get? key fields with
    | some (.object existing) => Assoc.set key (.object (mergeAll incoming existing)) fields
    | _ => Assoc.set key (.object incoming) fields
  | other => Assoc.set key other fields

/-- Puts several values at their keys, one after the other. -/
def mergeAll : List (String × Json) → List (String × Json) → List (String × Json)
  | [], fields => fields
  | (key, value) :: rest, fields => mergeAll rest (merge key value fields)
end

/-- The names that a dotted key stands for. -/
def keyNames (key : String) : List String :=
  ((pieces '.' key.toList).filter (!·.isEmpty)).map String.ofList

/-- Puts a value at the place that a dotted key stands for; a key without names is ignored. -/
def place (key : String) (value : Json) (fields : List (String × Json)) : List (String × Json) :=
  match keyNames key with
  | [] => fields
  | first :: rest => merge first (nest rest value) fields

mutual
/-- The data with every dotted key replaced by nested objects. -/
def expandKeys : Json → Json
  | .list items => .list (expandItems items)
  | .object fields => .object (expandFields fields [])
  | other => other

/-- `expandKeys` on the items of a list. -/
def expandItems : List Json → List Json
  | [] => []
  | item :: rest => expandKeys item :: expandItems rest

/-- Places the fields of an object one after the other among those that are placed already. -/
def expandFields : List (String × Json) → List (String × Json) → List (String × Json)
  | [], placed => placed
  | (key, value) :: rest, placed => expandFields rest (place key (expandKeys value) placed)
end

/-- The data of the siblings of a series in their order: the items of a list, or the fields of
an object whose keys are sizes, ordered by these sizes. -/
def siblingEntries : Option Json → List Json
  | some (.list items) => items
  | some (.object fields) =>
    let indexed := fields.filterMap fun (key, value) => (size? key.toList).map (·, value)
    (indexed.mergeSort fun first second => decide (first.1 ≤ second.1)).map (·.2)
  | _ => []

end Formwork.InitialData
