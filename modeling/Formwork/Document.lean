import Formwork.Json
import Formwork.Number.Word

/-!
# Documents

A document is what a description is read from, once the text around it is gone: null, truth
values, numbers, texts, lists and maps. Unlike JSON it may have keys of any kind, repeated
keys, and numbers that are not finite. JSON values are documents, and a document
with text keys only is a JSON value again.
-/

set_option autoImplicit false

namespace Formwork

/-- A document. -/
inductive Document where
  | null
  | bool (value : Bool)
  | integer (value : Int)
  | double (value : Number.Binary64)
  | text (value : String)
  | list (items : List Document)
  | map (entries : List (Document × Document))
deriving Repr

namespace Document

mutual
/-- The document of a JSON value. -/
def ofJson : Json → Document
  | .null => .null
  | .bool value => .bool value
  | .number (.integer value) => .integer value
  | .number (.double value) => .double value
  | .text value => .text value
  | .list items => .list (ofItems items)
  | .object fields => .map (ofFields fields)

/-- The documents of the items of a list. -/
def ofItems : List Json → List Document
  | [] => []
  | item :: rest => ofJson item :: ofItems rest

/-- The entries of the fields of an object. -/
def ofFields : List (String × Json) → List (Document × Document)
  | [] => []
  | (key, value) :: rest => (.text key, ofJson value) :: ofFields rest
end

mutual
/-- The JSON value of a document whose keys are texts. A number that is not finite becomes
null, and of two entries with one key the later value stands in the earlier place. -/
def toJson? : Document → Option Json
  | .null => some .null
  | .bool value => some (.bool value)
  | .integer value => some (.number (.integer value))
  | .double value => some (if value.isFinite then .number (.double value) else .null)
  | .text value => some (.text value)
  | .list items => (toItems? items).map .list
  | .map entries => (toFields? entries).map fun fields => .object (Assoc.ofList fields)

/-- The JSON values of the items of a list. -/
def toItems? : List Document → Option (List Json)
  | [] => some []
  | item :: rest =>
    match item.toJson?, toItems? rest with
    | some value, some values => some (value :: values)
    | _, _ => none

/-- The fields of the entries of a map. -/
def toFields? : List (Document × Document) → Option (List (String × Json))
  | [] => some []
  | (.text key, item) :: rest =>
    match item.toJson?, toFields? rest with
    | some value, some fields => some ((key, value) :: fields)
    | _, _ => none
  | _ => none
end

/-! ## Reading single values -/

def text? : Document → Option String
  | .text value => some value
  | _ => none

def bool? : Document → Option Bool
  | .bool value => some value
  | _ => none

/-- An unsigned integer of 64 bits. -/
def size? : Document → Option Nat
  | .integer value => if 0 ≤ value && Number.isWord 64 value then some value.toNat else none
  | _ => none

/-- A value that may be null. -/
def optional? {α : Type} (read : Document → Option α) : Document → Option (Option α)
  | .null => some none
  | other => (read other).map some

/-- A text that may be null. -/
def optionalText? : Document → Option (Option String) := optional? text?

/-- A size that may be null. -/
def optionalSize? : Document → Option (Option Nat) := optional? size?

/-- The items of a list, each read. -/
def listOf? {α : Type} (read : Document → Option α) : Document → Option (List α)
  | .list items => items.mapM read
  | _ => none

/-! ## Reading records -/

/-- Whether a key can name an entry: a text, or a number as a position. -/
def isName : Document → Bool
  | .text _ => true
  | .integer value => 0 ≤ value
  | _ => false

/-- The name among the declared ones that a key means: its text, or its number as a
position. -/
def declaredName? (names : List String) : Document → Option String
  | .text key => if names.contains key then some key else none
  | .integer value => if 0 ≤ value then names[value.toNat]? else none
  | _ => none

/-- Gathers the declared entries of a map. A key that can name nothing is refused, and so are a name
that is declared twice and, if the record is closed, every name that is not declared. -/
def declared? (names : List String) (closed : Bool) :
    List (Document × Document) → Option (List (String × Document))
  | [] => some []
  | (key, value) :: rest =>
    match declared? names closed rest with
    | none => none
    | some found =>
      match declaredName? names key with
      | some name => if Assoc.has name found then none else some ((name, value) :: found)
      | none => if closed || !key.isName then none else some found

/-- The entries of a record, from a map or from a list of its values in the order of its
names. -/
def record? (names : List String) (closed : Bool) : Document → Option (List (String × Document))
  | .map entries => declared? names closed entries
  | .list items => if items.length ≤ names.length then some (names.zip items) else none
  | _ => none

/-- The entries of a record from a map alone, whose keys are texts. -/
def openRecord? (names : List String) : Document → Option (List (String × Document))
  | .map entries => declared? names false (entries.filter fun (key, _) => key.text?.isSome)
  | _ => none

/-- The value of an entry of a record, or a default when it is absent. -/
def entry {α : Type} (found : List (String × Document)) (name : String) (absent : α)
    (read : Document → Option α) : Option α :=
  match Assoc.get? name found with
  | some value => read value
  | none => some absent

end Document

end Formwork
