import Formwork.Action
import Formwork.Text.Nesting
import Formwork.Text.Numeral

/-!
# Reading actions

An action is split at `!~` into at most two chains, a chain at `->` into calls, and the
arguments of a call at commas, each time outside quotes and parentheses only. A call
is a name, or a name with its arguments in parentheses that close at the end of the
call. The arguments are read before the name is looked up, so a bad argument is
reported before an unknown name.
-/

set_option autoImplicit false

namespace Formwork

open Formwork.Text

/-- Reads an argument. -/
def Argument.read (text : List Char) : Except ActionError Argument :=
  let argument := trim text
  match unquote argument with
  | some content => .ok (.text (String.ofList content))
  | none =>
    match argument with
    | '^' :: key =>
      if isIdentifier key then .ok (.response (String.ofList key))
      else .error (.malformedCall (String.ofList argument))
    | _ =>
      if argument = ['t', 'r', 'u', 'e'] then .ok (.flag true)
      else if argument = ['f', 'a', 'l', 's', 'e'] then .ok (.flag false)
      else if isNumeric argument then .ok (.number (String.ofList argument))
      else
        match Reference.read argument with
        | .ok target => .ok (.path target)
        | .error problem => .error (.invalidArgument (String.ofList argument) problem)

/-- Reads the arguments between the parentheses of a call. -/
def Argument.readList (inner : List Char) : Except ActionError (List Argument) :=
  if (trim inner).isEmpty then .ok []
  else
    let parts := (splitTopLevel [','] inner).getD [trim inner]
    readEach parts fun part _ => read part

namespace Call

/-- A call that takes no arguments. -/
def withoutArguments (call : Call) (arguments : List Argument) : Except ActionError Call :=
  if arguments.isEmpty then .ok call else .error (.arity call.name "no" arguments.length)

/-- The call with a name and arguments. -/
def ofName (name : String) (arguments : List Argument) : Except ActionError Call :=
  match name with
  | "activate" => .ok (.activate arguments)
  | "submit" => withoutArguments .submit arguments
  | "submitPartial" => withoutArguments .submitPartial arguments
  | "setFieldValue" =>
    match arguments with
    | [.path target, source] => .ok (.setFieldValue target source)
    | _ => .error (.arity "setFieldValue" "a target path and a source" arguments.length)
  | "deleteValue" =>
    match arguments with
    | [.path target] => .ok (.deleteValue target)
    | _ => .error (.arity "deleteValue" "one path" arguments.length)
  | "reset" => withoutArguments .reset arguments
  | "disable" => withoutArguments .disable arguments
  | "enable" => withoutArguments .enable arguments
  | "proceed" =>
    match arguments with
    | [] => .ok (.proceed none)
    | [.text address] => .ok (.proceed (some address))
    | _ => .error (.arity "proceed" "at most one quoted url" arguments.length)
  | "clearErrors" => withoutArguments .clearErrors arguments
  | "noop" => .ok .noop
  | other => .error (.unknownAction other)

/-- Reads a call. -/
def read (text : List Char) : Except ActionError Call :=
  let source := trim text
  let opened := source.dropWhile (· != '(')
  let name := trim (source.takeWhile (· != '('))
  let malformed := ActionError.malformedCall (String.ofList source)
  let arguments : Except ActionError (List Argument) :=
    if opened.isEmpty then .ok []
    else
      match stripParentheses opened with
      | some inner => Argument.readList inner
      | none => .error malformed
  match arguments with
  | .error problem => .error problem
  | .ok arguments => if isIdentifier name then ofName (String.ofList name) arguments else .error malformed

end Call

namespace Pipeline

def rejectOperator : List Char := ['!', '~']

def arrowOperator : List Char := ['-', '>']

/-- Reads a chain of calls. -/
def readChain (text : List Char) : Except ActionError (List Call) :=
  if (trim text).isEmpty then .error .empty
  else
    let parts := (splitTopLevel arrowOperator text).getD [trim text]
    readEach parts fun part _ => if part.isEmpty then .error .danglingArrow else Call.read part

/-- Reads a whole action. -/
def read (text : List Char) : Except ActionError Pipeline :=
  let source := trim text
  if source.isEmpty then .error .empty
  else
    match splitTopLevel rejectOperator source with
    | none => (readChain source).map fun success => ⟨success, []⟩
    | some [successText, rejectText] => do
      let success ← readChain successText
      let reject ← readChain rejectText
      return ⟨success, reject⟩
    | some _ => .error .multipleRejectChains

/-- `read` on a string. -/
def parse (source : String) : Except ActionError Pipeline := read source.toList

end Pipeline

end Formwork
