import Formwork.Expression
import Formwork.Text.Numeral

/-!
# Evaluating conditions

A condition is evaluated for the form or fieldset that declares it, against what the
paths of a tree read as: the value of a field, or whether a button fires. A reference that
resolves to nothing is false, and so is every comparison with it, of either kind. A
reference with `:active` compares as the truth value it has.

A comparison of a value with a literal depends on the literal: truth values compare
with the truth of the value, numbers compare as doubles if both sides are numeric, and
texts compare as the value's own `matchesText`.
-/

set_option autoImplicit false

namespace Formwork

open Formwork.Number Formwork.Text

/-- What a path reads as. -/
inductive Reading where
  | value (value : Value)
  /-- A button, and whether it fires at the moment. -/
  | button (active : Bool)
deriving DecidableEq, Repr

/-- What the paths of a tree read as. -/
abbrev Lookup := Path → Option Reading

/-- What the first candidate of a reference that exists reads as. -/
def Reference.resolve (reference : Reference) (scope : Path) (lookup : Lookup) : Option Reading :=
  (reference.candidates scope).findSome? lookup

/-- The truth of a literal. -/
def Literal.isTruthy : Literal → Bool
  | .flag value => value
  | .text content => !content.isEmpty
  | .number source =>
    match numericValue? source.toList with
    | some value => !value.isZero
    | none => false

/-- Whether a value is the one that a literal means. -/
def Value.matchesLiteral (value : Value) : Literal → Bool
  | .flag expected => value.isTruthy == expected
  | .text content => value.matchesText content
  | .number source =>
    match numericValue? (trim value.asText.toList), numericValue? source.toList with
    | some actual, some expected => actual.sameValue expected
    | _, _ => value.matchesText source

namespace Expression

/-- One side of a comparison. -/
inductive Operand where
  | value (value : Value)
  | flag (truth : Bool)
  | literal (literal : Literal)
deriving DecidableEq, Repr

/-- The side of a comparison that an expression stands for, when its own truth is known. -/
def operand? (scope : Path) (lookup : Lookup) (truth : Bool) : Expression → Option Operand
  | .reference target =>
    match target.resolve scope lookup with
    | some (.value held) => some (.value held)
    | some (.button fires) => some (.flag fires)
    | none => none
  | .literal meant => some (.literal meant)
  | _ => some (.flag truth)

/-- Whether the two sides of a comparison are equal. -/
def Operand.equals : Operand → Operand → Bool
  | .value held, .literal meant => held.matchesLiteral meant
  | .literal meant, .value held => held.matchesLiteral meant
  | .value first, .value second => first == second || first.asText == second.asText
  | .literal first, .literal second => first.asText == second.asText
  | .flag truth, .literal meant => truth == meant.isTruthy
  | .literal meant, .flag truth => truth == meant.isTruthy
  | .flag truth, .value held => truth == held.isTruthy
  | .value held, .flag truth => truth == held.isTruthy
  | .flag first, .flag second => first == second

/-- The truth of a comparison of two sides, either of which may be missing. -/
def compareOperands (comparison : Comparison) : Option Operand → Option Operand → Bool
  | some left, some right =>
    match comparison with
    | .equal => left.equals right
    | .unequal => !left.equals right
  | _, _ => false

mutual
/-- The truth of a condition that is declared at `scope`. -/
def evaluate (scope : Path) (lookup : Lookup) : Expression → Bool
  | .reference target =>
    match target.resolve scope lookup with
    | some (.value held) => held.isTruthy
    | some (.button fires) => fires
    | none => false
  | .active target => target.resolve scope lookup == some (.button true)
  | .literal meant => meant.isTruthy
  | .not operand => !operand.evaluate scope lookup
  | .all operands => evaluateAll scope lookup operands
  | .any operands => evaluateAny scope lookup operands
  | .compare left comparison right =>
    compareOperands comparison
      (operand? scope lookup (left.evaluate scope lookup) left)
      (operand? scope lookup (right.evaluate scope lookup) right)

/-- Whether all conditions of a list hold. -/
def evaluateAll (scope : Path) (lookup : Lookup) : List Expression → Bool
  | [] => true
  | first :: rest => first.evaluate scope lookup && evaluateAll scope lookup rest

/-- Whether some condition of a list holds. -/
def evaluateAny (scope : Path) (lookup : Lookup) : List Expression → Bool
  | [] => false
  | first :: rest => first.evaluate scope lookup || evaluateAny scope lookup rest
end

end Expression

end Formwork
