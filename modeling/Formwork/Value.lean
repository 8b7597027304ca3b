import Formwork.Json.Printer

/-!
# The values of fields

A field holds a text, the state of a checkbox or a selection of several choices. On the way
to a server a value takes the form that a browser would give it: a checked box is the
text `on`, an unchecked one the empty text, a selection a list of texts.
-/

set_option autoImplicit false

namespace Formwork

/-- The value of a field. -/
inductive Value where
  | text (content : String)
  | flag (checked : Bool)
  | many (choices : List String)
deriving DecidableEq, Repr

namespace Value

/-- The text of a checked box. -/
def checkedText : String := "on"

/-- Empty texts, unchecked boxes and empty selections are false. -/
def isTruthy : Value → Bool
  | .text content => !content.isEmpty
  | .flag checked => checked
  | .many choices => !choices.isEmpty

def isEmpty (value : Value) : Bool := !value.isTruthy

/-- The empty value of the same kind. -/
def blank : Value → Value
  | .text _ => .text ""
  | .flag _ => .flag false
  | .many _ => .many []

/-- The value as one text. -/
def asText : Value → String
  | .text content => content
  | .flag true => checkedText
  | .flag false => ""
  | .many choices => String.intercalate "," choices

/-- Whether the value is the one that a quoted literal of a condition means. A selection
matches each of its choices. -/
def matchesText (literal : String) : Value → Bool
  | .text content => content == literal
  | .flag checked =>
    if literal = "true" || literal = checkedText then checked
    else if literal = "false" || literal = "" then !checked
    else false
  | .many choices => choices.contains literal

/-- The value as it is sent to a server. -/
def toWire : Value → Json
  | .many choices => Json.texts choices
  | other => .text other.asText

/-- The text of a JSON value as it would stand in an input element. -/
def scalarText : Json → String
  | .null => ""
  | .text content => content
  | other => other.print

/-- The value that a JSON value means, before it is fitted to a widget. -/
def ofJson : Json → Value
  | .null => .text ""
  | .bool checked => .flag checked
  | .text content => .text content
  | .list items => .many (items.map scalarText)
  | other => .text other.print

theorem isTruthy_blank (value : Value) : value.blank.isTruthy = false := by
  cases value <;> rfl

theorem blank_blank (value : Value) : value.blank.blank = value.blank := by
  cases value <;> rfl

end Value

end Formwork
