import Formwork.Path
import Formwork.Text.Name
import Formwork.Value

/-!
# Conditions

A condition is a boolean expression over the fields of a tree. Its references are absolute
(`customer.name`) or relative (`.cancel`, `..contact.next`): one leading dot
addresses the form or fieldset that declares the condition, and each further dot the
one around it. A reference with the suffix `:active` asks whether a button fires.

This module defines the expressions, what is wrong with a text that is no expression, and
the paths that a reference may mean from where it stands (`Reference.candidates`).
-/

set_option autoImplicit false

namespace Formwork

/-- What is wrong with the text of a condition. -/
inductive ExpressionError where
  | empty
  | danglingNegation
  | missingOperand (operator : String)
  | unbalanced
  | unsupportedOperator (operator : String)
  | unsupportedSuffix (suffix : String)
  | invalidOperand (operand : String)
deriving DecidableEq, Repr

namespace ExpressionError

def message : ExpressionError → String
  | .empty => "expression cannot be empty"
  | .danglingNegation => "expression cannot end with a negation operator"
  | .missingOperand operator => "operator '" ++ operator ++ "' is missing an operand"
  | .unbalanced => "unbalanced parentheses or quotes"
  | .unsupportedOperator operator =>
    "unsupported operator '" ++ operator ++ "'; only '==', '!=', '&&', '||' and '!' are supported"
  | .unsupportedSuffix suffix => "unsupported suffix '" ++ suffix ++ "'; only ':active' is supported"
  | .invalidOperand operand => "invalid operand '" ++ operand ++ "'"

end ExpressionError

/-! ## References -/

/-- A reference to a field or button: `ascend` leading dots and a path. -/
structure Reference where
  ascend : Nat
  path : Path
deriving DecidableEq, Repr

namespace Reference

/-- The reference written in a text, whose blanks at the ends do not count. -/
def read (text : List Char) : Except ExpressionError Reference :=
  let trimmed := Text.trim text
  let dots := trimmed.takeWhile (· == '.')
  let rest := trimmed.dropWhile (· == '.')
  if !rest.isEmpty && (Text.pieces '.' rest).all Text.isIdentifier then
    .ok ⟨dots.length, Path.parse (String.ofList rest)⟩
  else .error (.invalidOperand (String.ofList trimmed))

/-- `read` on a string. -/
def parse (text : String) : Except ExpressionError Reference := read text.toList

def isRelative (reference : Reference) : Bool := 0 < reference.ascend

/-- The text of a reference: its dots and its path. -/
def text (reference : Reference) : String :=
  String.ofList (List.replicate reference.ascend '.') ++ reference.path.text

/-- Adds each path at the end unless it is there already. -/
def addNew (found : List Path) (paths : List Path) : List Path :=
  paths.foldl (fun found path => if found.contains path then found else found ++ [path]) found

/-- The paths that a reference may mean in the scope of the form or fieldset at `scope`, in the
order in which they are tried. A relative reference means one path, or none when it
leads above the top. An absolute one is tried from the top, and then from the scope and
from everything around it, the nearest first, so that a sibling can address itself. -/
def candidates (reference : Reference) (scope : Path) : List Path :=
  if reference.isRelative then
    let levels := scope.size + 1
    if levels < reference.ascend then []
    else [(scope.truncate (levels - reference.ascend)).extend reference.path]
  else
    let scopes := (scope :: scope.ancestors).filter fun place => !place.isRoot
    addNew [reference.path] (scopes.map fun place => place.extend reference.path)

end Reference

/-! ## Expressions -/

/-- A literal of a comparison. A number keeps the text it was written as. -/
inductive Literal where
  | text (content : String)
  | flag (value : Bool)
  | number (source : String)
deriving DecidableEq, Repr

/-- The text that a literal compares as. -/
def Literal.asText : Literal → String
  | .text content => content
  | .flag true => "true"
  | .flag false => "false"
  | .number source => source

/-- The two comparisons. -/
inductive Comparison where
  | equal
  | unequal
deriving DecidableEq, Repr

/-- The operator of a comparison. -/
def Comparison.operator : Comparison → String
  | .equal => "=="
  | .unequal => "!="

/-- A condition. -/
inductive Expression where
  /-- The value of a field, or whether a button fires, as a truth value. -/
  | reference (target : Reference)
  /-- Whether a button fires. -/
  | active (target : Reference)
  | literal (value : Literal)
  | not (operand : Expression)
  | all (operands : List Expression)
  | any (operands : List Expression)
  | compare (left : Expression) (comparison : Comparison) (right : Expression)
deriving Repr

end Formwork
