import Formwork.Expression

/-!
# Actions

A button declares what a click does as a chain of calls joined by `->`. After `!~` a second
chain may follow, which runs when a call of the first one fails. This module defines calls,
their arguments and chains, and what is wrong with a text that is none.
-/

set_option autoImplicit false

namespace Formwork

/-- What is wrong with the text of an action. -/
inductive ActionError where
  | empty
  | multipleRejectChains
  | danglingArrow
  | unknownAction (name : String)
  | malformedCall (source : String)
  | arity (name expected : String) (actual : Nat)
  | invalidArgument (argument : String) (problem : ExpressionError)
deriving DecidableEq, Repr

namespace ActionError

def message : ActionError → String
  | .empty => "action pipeline cannot be empty"
  | .multipleRejectChains => "action pipeline may contain at most one '!~'"
  | .danglingArrow => "'->' is missing a call on one side"
  | .unknownAction name => "unknown action '" ++ name ++ "'"
  | .malformedCall source => "malformed call '" ++ source ++ "'"
  | .arity name expected actual =>
    "action '" ++ name ++ "' expects " ++ expected ++ " argument(s), got " ++
      String.ofList (Nat.toDigits 10 actual)
  | .invalidArgument argument problem => "invalid argument '" ++ argument ++ "': " ++ problem.message

end ActionError

/-- An argument of a call. -/
inductive Argument where
  | text (content : String)
  | number (source : String)
  | flag (value : Bool)
  /-- The value of a field. -/
  | path (target : Reference)
  /-- The value at a key in the body of the last successful response. -/
  | response (key : String)
deriving DecidableEq, Repr

/-- One call of a chain. -/
inductive Call where
  /-- Lets the button fire for one cycle and hands the arguments to the inducers. -/
  | activate (arguments : List Argument)
  /-- Validates and submits the whole tree. -/
  | submit
  /-- Validates and submits the form that owns the button. -/
  | submitPartial
  /-- Copies a value into a field. -/
  | setFieldValue (target : Reference) (source : Argument)
  /-- Blanks the value of a field. -/
  | deleteValue (target : Reference)
  /-- Restores the initial values of the whole tree. -/
  | reset
  /-- Disables the button itself. -/
  | disable
  | enable
  /-- Redirects to the given address, or to the one in the last successful response. -/
  | proceed (address : Option String)
  | clearErrors
  | noop
deriving DecidableEq, Repr

/-- The name of a call. -/
def Call.name : Call → String
  | .activate _ => "activate"
  | .submit => "submit"
  | .submitPartial => "submitPartial"
  | .setFieldValue .. => "setFieldValue"
  | .deleteValue _ => "deleteValue"
  | .reset => "reset"
  | .disable => "disable"
  | .enable => "enable"
  | .proceed _ => "proceed"
  | .clearErrors => "clearErrors"
  | .noop => "noop"

/-- Whether a call sends a request. -/
def Call.submits : Call → Bool
  | .submit => true
  | .submitPartial => true
  | _ => false

/-- What a click does: a chain of calls, and the chain that runs when one of them fails. -/
structure Pipeline where
  success : List Call
  reject : List Call
deriving DecidableEq, Repr

namespace Pipeline

/-- What a button does that declares no action. -/
def standard : Pipeline := ⟨[.activate []], []⟩

/-- Whether a call of the success chain sends a request. -/
def submits (pipeline : Pipeline) : Bool := pipeline.success.any Call.submits

end Pipeline

end Formwork
