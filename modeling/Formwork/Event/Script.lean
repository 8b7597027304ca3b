import Formwork.Event
import Formwork.Outline.Reader

/-!
# Scripts

A script is a YAML list of events: maps with one entry, named for the kind of the event, or the bare
word `reset`. Texts are taken as they are written, so `path: 5` means the path `5`; sizes must be
plain; the value of a field may be anything that JSON can say, with keys as they are written.
-/

set_option autoImplicit false

namespace Formwork.Event

/-- The JSON value that a scalar means. -/
def scalarJson? (text : String) (isPlain : Bool) : Option Json :=
  if isPlain then (Outline.plainValue? text).bind Document.toJson? else some (.text text)

mutual
/-- The JSON value that an outline means, if it has no more levels than given. -/
def valueJson? (levels : Nat) : Outline → Option Json
  | .scalar text isPlain => scalarJson? text isPlain
  | .list items =>
    match levels with
    | 0 => none
    | fewer + 1 => (itemsJson? fewer items).map .list
  | .map entries =>
    match levels with
    | 0 => none
    | fewer + 1 => (fieldsJson? fewer entries).map fun fields => .object (Assoc.ofList fields)

/-- The JSON values that the items of a list mean. -/
def itemsJson? (levels : Nat) : List Outline → Option (List Json)
  | [] => some []
  | item :: rest =>
    match valueJson? levels item, itemsJson? levels rest with
    | some first, some others => some (first :: others)
    | _, _ => none

/-- The JSON fields that the entries of a map mean. -/
def fieldsJson? (levels : Nat) : List (Outline × Outline) → Option (List (String × Json))
  | [] => some []
  | (key, value) :: rest =>
    match key.rawText?, valueJson? levels value, fieldsJson? levels rest with
    | some name, some first, some others => some ((name, first) :: others)
    | _, _, _ => none
end

/-- The only value at a name among the details of an event. -/
def single? (name : String) (details : List (Outline × Outline)) : Option Outline :=
  match details.filter fun (key, _) => key.rawText? == some name with
  | [(_, value)] => some value
  | _ => none

/-- Whether none of the given names is repeated among the details of an event. -/
def isUnrepeated (names : List String) (details : List (Outline × Outline)) : Bool :=
  details.all (fun (key, _) => key.rawText?.isSome) &&
    names.all fun name => (details.filter fun (key, _) => key.rawText? == some name).length ≤ 1

/-- The raw text at a required name. -/
def rawAt? (name : String) (details : List (Outline × Outline)) : Option String :=
  (single? name details).bind Outline.rawText?

/-- The size at a required name. -/
def plainSizeAt? (name : String) (details : List (Outline × Outline)) : Option Nat :=
  (single? name details).bind Outline.size?

/-- The size at a name that may be absent or null. -/
def optionalPlainSizeAt? (name : String) (details : List (Outline × Outline)) : Option (Option Nat) :=
  match single? name details with
  | none => some none
  | some value => if value.isNull then some none else value.size?.map some

/-- The names of the details of a kind of event. -/
def detailNames : String → List String
  | "set" => ["path", "value"]
  | "click" => ["path"]
  | "add" => ["collection", "after"]
  | "remove" => ["collection", "index"]
  | "step" => ["stepper", "index"]
  | _ => []

/-- The event of a kind with details that are not repeated. Further details are ignored. -/
def ofOutlineDetails? (kind : String) (details : List (Outline × Outline)) : Option Event :=
  if isUnrepeated (detailNames kind) details then
    match kind with
    | "set" => do
      let path ← rawAt? "path" details
      let value ← single? "value" details
      let json ← valueJson? (Outline.maximalDepth - 3) value
      return .set path json
    | "click" => (rawAt? "path" details).map .click
    | "add" => do
      let collection ← rawAt? "collection" details
      let after ← optionalPlainSizeAt? "after" details
      return .add collection after
    | "remove" => do
      let collection ← rawAt? "collection" details
      let index ← plainSizeAt? "index" details
      return .remove collection index
    | "step" => do
      let stepper ← rawAt? "stepper" details
      let index ← plainSizeAt? "index" details
      return .step stepper index
    | _ => none
  else none

/-- The event that an item of a script describes. -/
def ofOutline? : Outline → Option Event
  | .scalar "reset" _ => some .reset
  | .map [(.scalar kind _, .map details)] => ofOutlineDetails? kind details
  | _ => none

/-- The events of a script; an empty script has none. -/
def script? (text : String) : Option (List Event) :=
  match Outline.read? text with
  | some (.list items) => items.mapM ofOutline?
  | some (.scalar "" true) => some []
  | _ => none

end Formwork.Event
