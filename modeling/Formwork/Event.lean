import Formwork.Document

/-!
# Events

What a user does, addressed by dotted paths below the root of a tree. Events come one by one as JSON
values, or as a script that lists them.
-/

set_option autoImplicit false

namespace Formwork

/-- Something that a user does. -/
inductive Event where
  | set (path : String) (value : Json)
  | click (path : String)
  | add (collection : String) (after : Option Nat)
  | remove (collection : String) (index : Nat)
  | step (stepper : String) (index : Nat)
  | reset
deriving Repr

namespace Event

def toJson : Event → Json
  | .set path value => .object [("set", .object [("path", .text path), ("value", value)])]
  | .click path => .object [("click", .object [("path", .text path)])]
  | .add collection after =>
    .object [("add", .object [("collection", .text collection),
      ("after", match after with
        | some index => .natural index
        | none => .null)])]
  | .remove collection index =>
    .object [("remove", .object [("collection", .text collection), ("index", .natural index)])]
  | .step stepper index =>
    .object [("step", .object [("stepper", .text stepper), ("index", .natural index)])]
  | .reset => .text "reset"

/-- The text at a required entry. -/
def textAt? (key : String) (json : Json) : Option String := (json.field? key).bind Json.text?

/-- The size at a required entry. -/
def sizeAt? (key : String) (json : Json) : Option Nat := (json.field? key).bind Json.size?

/-- A size that may be absent or null. -/
def optionalSizeAt? (key : String) (json : Json) : Option (Option Nat) :=
  match json.field? key with
  | none => some none
  | some .null => some none
  | some other => other.size?.map some

/-- The event of a kind with the given details, which are an object. Further entries are ignored. -/
def ofDetails? (kind : String) (details : Json) : Option Event :=
  match kind with
  | "set" => do
    let path ← textAt? "path" details
    let value ← details.field? "value"
    return .set path value
  | "click" => (textAt? "path" details).map .click
  | "add" => do
    let collection ← textAt? "collection" details
    let after ← optionalSizeAt? "after" details
    return .add collection after
  | "remove" => do
    let collection ← textAt? "collection" details
    let index ← sizeAt? "index" details
    return .remove collection index
  | "step" => do
    let stepper ← textAt? "stepper" details
    let index ← sizeAt? "index" details
    return .step stepper index
  | _ => none

/-- The event that a JSON value describes: an object with one entry, named for the kind of the event, or
the bare text `reset`. -/
def ofJson? : Json → Option Event
  | .text "reset" => some .reset
  | .object [("reset", .null)] => some .reset
  | .object [(kind, .object details)] => ofDetails? kind (.object details)
  | _ => none

end Event

end Formwork
