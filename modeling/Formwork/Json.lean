import Formwork.Assoc
import Formwork.Number.Binary64

/-!
# JSON values

Initial data, payloads and response bodies are JSON values. The fields of an object keep
their order. A number is an integer of 64 bits, signed or unsigned, or a double; which of
the two it is decides its text.
-/

set_option autoImplicit false

namespace Formwork

/-- A JSON number. Integers lie between `-2 ^ 63` and `2 ^ 64 - 1`, doubles are finite. -/
inductive Json.Number where
  | integer (value : Int)
  | double (value : Number.Binary64)
deriving DecidableEq, Repr

/-- A JSON value. -/
inductive Json where
  | null
  | bool (value : Bool)
  | number (value : Json.Number)
  | text (value : String)
  | list (items : List Json)
  | object (fields : List (String × Json))
deriving Repr

namespace Json

/-- The JSON number of a natural number. -/
def natural (value : Nat) : Json := .number (.integer value)

/-- The JSON list of some texts. -/
def texts (items : List String) : Json := .list (items.map Json.text)

/-- A text, or null where there is none. -/
def optionalText : Option String → Json
  | none => .null
  | some value => .text value

/-- The value of a field of an object; a value of another kind has no fields. -/
def field? (key : String) : Json → Option Json
  | .object fields => Assoc.get? key fields
  | _ => none

/-- The text of a value that is a text. -/
def text? : Json → Option String
  | .text value => some value
  | _ => none

/-- The number of a value that is an unsigned integer of 64 bits. -/
def size? : Json → Option Nat
  | .number (.integer value) => if 0 ≤ value then some value.toNat else none
  | _ => none

mutual
/-- The value with every object turned into a map: of two fields with one key the later
value stands in the earlier place. -/
def merged : Json → Json
  | .list items => .list (mergedItems items)
  | .object fields => .object (Assoc.ofList (mergedFields fields))
  | other => other

/-- `merged` on the items of a list. -/
def mergedItems : List Json → List Json
  | [] => []
  | item :: rest => item.merged :: mergedItems rest

/-- `merged` on the values of fields. -/
def mergedFields : List (String × Json) → List (String × Json)
  | [] => []
  | (key, value) :: rest => (key, value.merged) :: mergedFields rest
end

end Json

end Formwork
