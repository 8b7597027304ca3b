import Formwork.Condition
import Formwork.Delivery
import Formwork.Path.Encoding

/-!
# Reports

Every operation on a tree is either refused, with a `Rejection` and no change at all, or
answered by a report of what happened: the inducers that fired, the outcome of a validation, what the host
has to do now, a failed delivery, or the index of a sibling that was added.
-/

set_option autoImplicit false

namespace Formwork

open Formwork.Text

/-- Why a tree refuses an operation. -/
inductive Rejection where
  | busy
  | unknownPath (path : Path)
  | notAnActivator (path : Path)
  | notAValueField (path : Path)
  | notACollection (path : Path)
  | disabled (path : Path)
  | hidden (path : Path)
  | notRepeatable (path : Path)
  | maxSiblingsReached (path : Path) (greatest : Nat)
  | minSiblingsReached (path : Path) (least : Nat)
  | siblingOutOfRange (path : Path) (index : Nat)
  | notAStepper (path : Path)
  | stepOutOfRange (path : Path) (index : Nat)
  | stepNotReachable (path : Path) (index : Nat)
  | noSubmissionPending
deriving DecidableEq, Repr

namespace Rejection

def message : Rejection → String
  | .busy => "a submission is in flight"
  | .unknownPath path => "no field, activator or collection at '" ++ path.text ++ "'"
  | .notAnActivator path => "'" ++ path.text ++ "' is not an activator"
  | .notAValueField path => "'" ++ path.text ++ "' is an activator and holds no value"
  | .notACollection path => "'" ++ path.text ++ "' is not a collection"
  | .disabled path => "'" ++ path.text ++ "' is disabled"
  | .hidden path => "'" ++ path.text ++ "' is hidden"
  | .notRepeatable path => "collection '" ++ path.text ++ "' is not repeatable"
  | .maxSiblingsReached path greatest =>
    "collection '" ++ path.text ++ "' already holds the maximum of " ++ indexText greatest ++ " siblings"
  | .minSiblingsReached path least =>
    "collection '" ++ path.text ++ "' must keep at least " ++ indexText least ++ " siblings"
  | .siblingOutOfRange path index =>
    "collection '" ++ path.text ++ "' has no sibling " ++ indexText index
  | .notAStepper path => "'" ++ path.text ++ "' is not a stepper"
  | .stepOutOfRange path index => "stepper '" ++ path.text ++ "' has no step " ++ indexText index
  | .stepNotReachable path index =>
    "step " ++ indexText index ++ " of '" ++ path.text ++ "' is not reachable yet"
  | .noSubmissionPending => "no submission is pending"

end Rejection

/-- The outcome of a validation: the messages of invalid fields by their paths below the root of
the tree. -/
structure ValidationReport where
  status : Nat
  messages : Messages
deriving DecidableEq, Repr

namespace ValidationReport

/-- The report of some invalid fields of a tree whose root has the path `here`. -/
def ofFailures (here : Path) (failures : List (Path × List String)) : ValidationReport :=
  let messages := Response.gathered (failures.map fun (path, contents) =>
    (((path.stripFront? here).getD path).text, contents))
  ⟨if messages.isEmpty then 200 else 422, messages⟩

def isValid (report : ValidationReport) : Bool := report.messages.isEmpty

def toJson (report : ValidationReport) : Json :=
  .object [("status", .natural report.status), ("errors", Response.messagesJson report.messages)]

end ValidationReport

/-- What the host of a tree has to do. -/
inductive Effect where
  /-- Send the request and hand its outcome back to the tree. -/
  | submit (request : Request)
  | redirect (address : String)
deriving Repr

namespace Effect

def request? : Effect → Option Request
  | .submit request => some request
  | .redirect _ => none

def address? : Effect → Option String
  | .submit _ => none
  | .redirect address => some address

def toJson : Effect → Json
  | .submit request => .object [("effect", .text "submit"), ("request", request.toJson)]
  | .redirect address => .object [("effect", .text "redirect"), ("url", .text address)]

end Effect

/-- What happened during one operation. -/
structure Report where
  /-- The inducers that fired, in their order. -/
  induced : List InducedEvent
  validation : Option ValidationReport
  effects : List Effect
  /-- A failed delivery, or a response of an unexpected status. -/
  failure : Option String
  /-- The index of a new sibling. -/
  sibling : Option Nat
deriving Repr

namespace Report

/-- Nothing happened. -/
def empty : Report := ⟨[], none, [], none, none⟩

/-- The last request that the host has to send. -/
def request? (report : Report) : Option Request := report.effects.reverse.findSome? Effect.request?

/-- The last address to which the host has to redirect. -/
def address? (report : Report) : Option String := report.effects.reverse.findSome? Effect.address?

/-- The report of two operations, one after the other. -/
def merge (first later : Report) : Report where
  induced := first.induced ++ later.induced
  validation := later.validation.orElse fun _ => first.validation
  effects := first.effects ++ later.effects
  failure := later.failure.orElse fun _ => first.failure
  sibling := later.sibling.orElse fun _ => first.sibling

end Report

def InducedEvent.toJson (event : InducedEvent) : Json :=
  .object [("kind", .text event.induction.label), ("path", event.path.toJson)]

/-- One entry of an object, or none where there is nothing to say. -/
def Json.presentEntry (key : String) : Option Json → List (String × Json)
  | none => []
  | some value => [(key, value)]

/-- The report without what did not happen. -/
def Report.toJson (report : Report) : Json := .object (
  Json.presentEntry "induced"
      (if report.induced.isEmpty then none else some (.list (report.induced.map InducedEvent.toJson))) ++
    Json.presentEntry "validation" (report.validation.map ValidationReport.toJson) ++
    Json.presentEntry "effects"
      (if report.effects.isEmpty then none else some (.list (report.effects.map Effect.toJson))) ++
    Json.presentEntry "failure" (report.failure.map Json.text) ++
    Json.presentEntry "sibling" (report.sibling.map Json.natural))

end Formwork
