import Formwork.Action
import Formwork.Expression.Printer

/-!
# Printing actions

A call is printed as its name, followed by its arguments in parentheses if it has any;
calls are joined by `->`, and the reject chain follows after `!~`. A text is quoted with a
quote that it does not contain; which one, and how many blanks stand around an operator and
behind a comma, is up to the style.
-/

set_option autoImplicit false

namespace Formwork

open Expression (Style parenthesized spaced)

/-- The text of an argument as it is shown to a reader: texts in double quotes, whatever
they contain. -/
def Argument.shown : Argument → String
  | .text content => "\"" ++ content ++ "\""
  | .number source => source
  | .flag value => (Literal.flag value).asText
  | .path target => target.text
  | .response key => "^" ++ key

/-- The arguments of a call. -/
def Call.arguments : Call → List Argument
  | .activate arguments => arguments
  | .setFieldValue target source => [.path target, source]
  | .deleteValue target => [.path target]
  | .proceed (some address) => [.text address]
  | _ => []

section Printing

variable (style : Style)

/-- The text of an argument in an action. -/
def Argument.printChars : Argument → List Char
  | .text content => Literal.quoted (style.quote content.toList) content.toList
  | .number source => source.toList
  | .flag value => (Literal.flag value).asText.toList
  | .path target => target.text.toList
  | .response key => '^' :: key.toList

/-- The texts of arguments with commas between them. -/
def Argument.printList (arguments : List Argument) : List Char :=
  (',' :: style.blanks).intercalate (arguments.map (printChars style))

/-- The text of a call. -/
def Call.printChars (call : Call) : List Char :=
  match call.arguments with
  | [] => call.name.toList
  | arguments => call.name.toList ++ parenthesized (Argument.printList style arguments)

namespace Pipeline

/-- The text of a chain. -/
def printChain (chain : List Call) : List Char :=
  (spaced style "->").intercalate (chain.map (Call.printChars style))

/-- The text of an action. -/
def printChars (pipeline : Pipeline) : List Char :=
  match pipeline.reject with
  | [] => printChain style pipeline.success
  | reject => printChain style pipeline.success ++ spaced style "!~" ++ printChain style reject

/-- The text of an action. -/
def print (pipeline : Pipeline) : String := String.ofList (printChars style pipeline)

end Pipeline

end Printing

end Formwork
