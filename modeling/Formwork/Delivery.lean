import Formwork.Document
import Formwork.Text.Numeral

/-!
# Requests and responses

A submission is a request whose body wraps the data of the tree. A response has a status and
a JSON body: a status from 200 to 299 accepts the data, and 422 rejects them with messages for
single fields. Delivery itself can fail as well.

The messages of a response nest like the tree or are keyed by dotted paths, or both.
`Response.messages` flattens them: every text of the body is listed under the path of keys and
indices that leads to it, and a list of texts only counts as one place.
-/

set_option autoImplicit false

namespace Formwork

open Formwork.Text

/-- Messages by dotted path, in order. -/
abbrev Messages := List (String × List String)

/-- How a request is sent. -/
inductive Method where
  /-- A submission of the whole tree. -/
  | post
  /-- A submission of a part. -/
  | patch
deriving DecidableEq, Repr

def Method.label : Method → String
  | .post => "POST"
  | .patch => "PATCH"

/-- The body of a submission around the data of a tree. -/
def wrapData (data : Json) : Json := .object [("formset_data", data)]

/-- A submission. -/
structure Request where
  method : Method
  data : Json
deriving Repr

def Request.toJson (request : Request) : Json :=
  .object [("method", .text request.method.label), ("payload", wrapData request.data)]

/-- What a server answers. -/
structure Response where
  status : Nat
  body : Json
deriving Repr

/-- Why a request was not answered. -/
inductive Failure where
  | missingEndpoint
  | request (description : String)
  | timeout (seconds : Nat)
  | invalidBody (description preview : String)
deriving DecidableEq, Repr

def Failure.message : Failure → String
  | .missingEndpoint => "no endpoint configured"
  | .request description => "request failed: " ++ description
  | .timeout seconds => "request timed out after " ++ indexText seconds ++ "s"
  | .invalidBody description preview =>
    "response body is not valid JSON: " ++ description ++ "; body preview: " ++ preview

/-- What became of a request. -/
abbrev Outcome := Except Failure Response

namespace Response

/-- The key of the address to which a successful response redirects. -/
def addressKey : String := "success_url"

/-- The key of the messages about a form as a whole. -/
def groupKey : String := "__all__"

/-- The response that accepts a submission without saying more. -/
def accepted : Response := ⟨200, .object []⟩

def isSuccess (response : Response) : Bool := 200 ≤ response.status && response.status < 300

def isValidationFailure (response : Response) : Bool := response.status == 422

/-- The address to which a response redirects. -/
def address? (response : Response) : Option String :=
  (response.body.field? addressKey).bind Json.text?

/-- The response of a record with a status of 16 bits and a body. -/
def ofJson? (json : Json) : Option Response := do
  let found ← Document.record? ["status", "body"] false (.ofJson json)
  let status ← (Assoc.get? "status" found).bind Document.size?
  let body ← Document.entry found "body" .null Document.toJson?
  if status < Number.wordCount 16 then some ⟨status, body⟩ else none

/-! ## Messages -/

/-- The dotted path of a key beneath a dotted path. -/
def joinKey (path key : String) : String := if path.isEmpty then key else path ++ "." ++ key

/-- The texts of a list that holds nothing else. -/
def texts? : List Json → Option (List String)
  | [] => some []
  | .text content :: rest => (texts? rest).map (content :: ·)
  | _ => none

mutual
/-- The messages in a value at a dotted path, place by place. -/
def messagesAt (path : String) : Json → Messages
  | .object fields => fieldMessages path fields
  | .list items =>
    match texts? items with
    | some contents => [(path, contents)]
    | none => itemMessages path 0 items
  | .text content => [(path, [content])]
  | _ => []

/-- The messages in the fields of an object at a dotted path. -/
def fieldMessages (path : String) : List (String × Json) → Messages
  | [] => []
  | (key, value) :: rest => messagesAt (joinKey path key) value ++ fieldMessages path rest

/-- The messages in the items of a list at a dotted path, the first of which has the given index. -/
def itemMessages (path : String) (index : Nat) : List Json → Messages
  | [] => []
  | value :: rest => messagesAt (joinKey path (indexText index)) value ++ itemMessages path (index + 1) rest
end

/-- Messages with those of equal paths brought together at the first place. -/
def gathered (messages : Messages) : Messages :=
  messages.foldl (fun found (path, contents) => Assoc.addAll path contents found) []

/-- The messages that a response carries. -/
def messages (response : Response) : Messages := gathered (messagesAt "" response.body)

/-- The JSON object of messages by path. -/
def messagesJson (messages : Messages) : Json :=
  .object (messages.map fun (path, contents) => (path, Json.texts contents))

/-- The response that rejects a submission with the given messages. -/
def unprocessable (messages : Messages) : Response := ⟨422, messagesJson messages⟩

end Response

end Formwork
