import Formwork.Address.Reader
import Formwork.Client.Settings
import Formwork.Delivery
import Formwork.Json.Printer
import Formwork.Text.Blank

/-!
# Exchanges with a server

What is sent to an endpoint and how its answer is understood. A request is a JSON text with the token in
a header. An answer that is blank has the body null, and one that is no JSON text counts as a failed
delivery, with a preview of what came.
-/

set_option autoImplicit false

namespace Formwork

open Formwork.Text

/-- Why no endpoint can be asked. -/
inductive EndpointError where
  | missing
  | invalid (endpoint : String) (problem : AddressError)
deriving DecidableEq, Repr

def EndpointError.message : EndpointError → String
  | .missing => "Set FORMSET_ENDPOINT or add 'endpoint' to the config file"
  | .invalid endpoint problem => "invalid endpoint '" ++ endpoint ++ "': " ++ problem.message

/-- The address of the endpoint, if one is set. -/
def Settings.address? (settings : Settings) : Except EndpointError (Option Address) :=
  match settings.endpoint with
  | none => .ok none
  | some endpoint =>
    match Address.parse endpoint with
    | .ok address => .ok (some address)
    | .error problem => .error (.invalid endpoint problem)

/-- The address to which requests are sent. -/
def Settings.target (settings : Settings) : Except EndpointError Address := do
  match ← settings.address? with
  | some address => return address
  | none => throw .missing

namespace Exchange

/-- The first line of a request. -/
def requestLine (method : Method) (path : String) : String := method.label ++ " " ++ path ++ " HTTP/1.1"

/-- The headers of every request. -/
def headers (token : Option String) : List (String × String) :=
  [("Accept", "application/json"), ("Content-Type", "application/json")] ++
    (token.map fun value => ("X-CSRFToken", value)).toList

/-- The text of a request. -/
def requestBody (request : Request) : String := (wrapData request.data).print

/-- The number of characters of a preview. -/
def previewLimit : Nat := 200

/-- A text on one line, cut after some characters. -/
def preview (text : String) : String :=
  let joined := String.ofList (List.intersperse [' '] (words text.toList)).flatten
  if joined.isEmpty then "<empty>"
  else if previewLimit < joined.length then String.ofList (joined.toList.take previewLimit) ++ "..."
  else joined

/-- What the text of an answer means. -/
def understand (status : Nat) (text : String) : Outcome :=
  if (trim text.toList).isEmpty then .ok ⟨status, .null⟩
  else
    match Json.parse? text with
    | some body => .ok ⟨status, body⟩
    | none => .error (.invalidBody ("status " ++ indexText status) (preview text))

end Exchange

end Formwork
