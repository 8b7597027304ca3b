import Formwork.Expression.Evaluation
import Formwork.Expression.Reader
import Formwork.Action

/-!
# Conditions in use

A form, fieldset or field is shown while one condition holds or hidden while another does;
declaring both is an error. An inducer watches a condition and fires when it turns from
false to true: it remembers the last value in its latch, so a condition that stays
true fires once (`Inducer.poll`).

`MountError` lists everything that keeps a description from being mounted.
-/

set_option autoImplicit false

namespace Formwork

/-- The roles in which a form, fieldset or field can declare a condition. -/
inductive Role where
  | showing
  | hiding
  | disabling
  | requiring
  | opening
  | closing
  | activating
deriving DecidableEq, Repr

/-- The name of a role in messages. -/
def Role.label : Role → String
  | .showing => "show"
  | .hiding => "hide"
  | .disabling => "disable"
  | .requiring => "require"
  | .opening => "induce_open"
  | .closing => "induce_close"
  | .activating => "induce_activate"

/-- Why a description cannot be mounted. -/
inductive MountError where
  | conflictingVisibility (path : Path)
  | repeatableStepper (path : Path)
  | emptyStepper (path : Path)
  | invalidExpression (path : Path) (role : Role) (problem : ExpressionError)
  | invalidAction (path : Path) (problem : ActionError)
  | invalidPattern (path : Path)
  | invalidMemberName (parent : Path) (name : String)
  | siblingBounds (path : Path) (least greatest : Nat)
  | misplacedInducer (path : Path) (role : Role)
deriving DecidableEq, Repr

namespace MountError

/-- The message of an error; the text of a pattern error is left open. -/
def message : MountError → String
  | .conflictingVisibility path => "'" ++ path.text ++ "' declares both a show and a hide condition"
  | .repeatableStepper path => "stepper '" ++ path.text ++ "' cannot be repeatable"
  | .emptyStepper path => "stepper '" ++ path.text ++ "' has no steps"
  | .invalidExpression path role problem =>
    "invalid " ++ role.label ++ " expression on '" ++ path.text ++ "': " ++ problem.message
  | .invalidAction path problem => "invalid action on '" ++ path.text ++ "': " ++ problem.message
  | .invalidPattern path => "invalid pattern on '" ++ path.text ++ "'"
  | .invalidMemberName parent name =>
    "member name '" ++ name ++ "' under '" ++ parent.text ++ "' must be a non-numeric identifier"
  | .siblingBounds path least greatest =>
    "collection '" ++ path.text ++ "' has min_siblings " ++ Text.indexText least ++
      " greater than max_siblings " ++ Text.indexText greatest
  | .misplacedInducer path role =>
    "'" ++ path.text ++ "' declares " ++ role.label ++ " but is not a step of a stepper"

end MountError

/-- Reads the condition that is declared in a role at a path. -/
def compileCondition (path : Path) (role : Role) (source : String) :
    Except MountError Expression :=
  match Expression.parse source with
  | .ok expression => .ok expression
  | .error problem => .error (.invalidExpression path role problem)

/-- Reads a condition that may be absent. -/
def compileOptional (path : Path) (role : Role) :
    Option String → Except MountError (Option Expression)
  | none => .ok none
  | some source => (compileCondition path role source).map some

/-! ## Visibility -/

/-- When an element is visible. -/
inductive Visibility where
  | always
  | showWhile (condition : Expression)
  | hideWhile (condition : Expression)
deriving Repr

namespace Visibility

/-- Reads the show and hide conditions at a path, of which at most one may be declared. -/
def compile (path : Path) : Option String → Option String → Except MountError Visibility
  | some _, some _ => .error (.conflictingVisibility path)
  | some source, none => (compileCondition path .showing source).map .showWhile
  | none, some source => (compileCondition path .hiding source).map .hideWhile
  | none, none => .ok .always

/-- Whether the element is hidden by its own condition. -/
def hides (scope : Path) (lookup : Lookup) : Visibility → Bool
  | .always => false
  | .showWhile condition => !condition.evaluate scope lookup
  | .hideWhile condition => condition.evaluate scope lookup

end Visibility

/-- Whether a condition that may be absent holds. -/
def holdsOptional (scope : Path) (lookup : Lookup) : Option Expression → Bool
  | none => false
  | some condition => condition.evaluate scope lookup

/-! ## Inducers -/

/-- What an inducer does when it fires. -/
inductive Induction where
  | opens
  | closes
  | activates
deriving DecidableEq, Repr

/-- The role in which the condition of an inducer is declared. -/
def Induction.role : Induction → Role
  | .opens => .opening
  | .closes => .closing
  | .activates => .activating

/-- The name of an inducer's action in reports. -/
def Induction.label : Induction → String
  | .opens => "open"
  | .closes => "close"
  | .activates => "activate"

/-- An inducer that has fired, with the path of the form or collection that declares it. -/
structure InducedEvent where
  induction : Induction
  path : Path
deriving DecidableEq, Repr

/-- A condition with the memory of its last value. -/
structure Inducer where
  induction : Induction
  source : String
  condition : Expression
  latched : Bool
deriving Repr

namespace Inducer

/-- Reads the condition of an inducer at a path. -/
def compile (path : Path) (induction : Induction) (source : String) : Except MountError Inducer :=
  (compileCondition path induction.role source).map fun condition =>
    ⟨induction, source, condition, false⟩

/-- The truth of the condition now. -/
def holds (scope : Path) (lookup : Lookup) (inducer : Inducer) : Bool :=
  inducer.condition.evaluate scope lookup

/-- The inducer with the truth of its condition remembered. -/
def latch (scope : Path) (lookup : Lookup) (inducer : Inducer) : Inducer :=
  { inducer with latched := inducer.holds scope lookup }

/-- Whether the condition has turned true since it was last remembered. -/
def rises (scope : Path) (lookup : Lookup) (inducer : Inducer) : Bool :=
  inducer.holds scope lookup && !inducer.latched

/-- One poll: whether the inducer fires, and the inducer afterwards. -/
def poll (scope : Path) (lookup : Lookup) (inducer : Inducer) : Bool × Inducer :=
  (inducer.rises scope lookup, inducer.latch scope lookup)

/-- A second poll with the same readings does not fire. -/
theorem rises_latch (scope : Path) (lookup : Lookup) (inducer : Inducer) :
    (inducer.latch scope lookup).rises scope lookup = false := by
  simp only [rises, latch, holds]
  cases inducer.condition.evaluate scope lookup <;> rfl

end Inducer

end Formwork
