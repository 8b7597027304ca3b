import Formwork.Expression
import Formwork.Text.Nesting
import Formwork.Text.Numeral

/-!
# Reading conditions

A condition is read from the loosest operator to the tightest: `||`, `&&`, one comparison,
`!`, and at last an operand or a condition in parentheses. Operators are looked for outside
quotes and parentheses only. An operand is a quoted text, `true` or `false`, a numeric
text, or a reference with or without `:active`, tried in this order.

Every recursive step reads a shorter text, or the same text one level further down.
-/

set_option autoImplicit false

namespace Formwork.Expression

open Formwork.Text

def orOperator : List Char := ['|', '|']

def andOperator : List Char := ['&', '&']

def equalOperator : List Char := ['=', '=']

def unequalOperator : List Char := ['!', '=']

/-- The suffix of a reference to a button that fires. -/
def activeSuffix : List Char := [':', 'a', 'c', 't', 'i', 'v', 'e']

/-- The operators that are refused, in the order in which they are looked for. -/
def unsupportedOperators : List String := ["===", "!==", ">=", "<=", ">", "<"]

/-- Reads an operand. -/
def readOperand (text : List Char) : Except ExpressionError Expression :=
  let operand := trim text
  match unquote operand with
  | some content => .ok (.literal (.text (String.ofList content)))
  | none =>
    if operand = ['t', 'r', 'u', 'e'] then .ok (.literal (.flag true))
    else if operand = ['f', 'a', 'l', 's', 'e'] then .ok (.literal (.flag false))
    else if isNumeric operand then .ok (.literal (.number (String.ofList operand)))
    else
      let path := operand.takeWhile (· != ':')
      let suffix := operand.dropWhile (· != ':')
      if !suffix.isEmpty then
        if suffix = activeSuffix then (Reference.read path).map .active
        else .error (.unsupportedSuffix (String.ofList suffix))
      else if operand.any isBlank then .error (.invalidOperand (String.ofList operand))
      else (Reference.read operand).map .reference

/-- The expression negated a number of times. -/
def negations : Nat → Expression → Expression
  | 0, expression => expression
  | count + 1, expression => .not (negations count expression)

/-- The two sides of the first top-level occurrence of an operator, trimmed. -/
def sides? (operator text : List Char) : Option (List Char × List Char) :=
  (breakTopLevel operator .top text).map fun (before, after) =>
    (trim before, trim (after.drop operator.length))

theorem length_le_of_sides? {operator text left right : List Char}
    (found : sides? operator text = some (left, right)) :
    left.length ≤ text.length ∧ right.length ≤ text.length := by
  obtain ⟨⟨before, after⟩, broken, pairEq⟩ := Option.map_eq_some_iff.mp found
  have whole := append_of_breakTopLevel operator text .top before after broken
  injection pairEq with leftEq rightEq
  have lengths : before.length + after.length = text.length := by
    rw [← whole, List.length_append]
  have leftLe := length_trim_le before
  have rightLe := length_trim_le (after.drop operator.length)
  rw [leftEq] at leftLe
  rw [rightEq, List.length_drop] at rightLe
  omega

theorem length_trim_stripNegations_le (text : List Char) :
    (trim (stripNegations (trim text)).2).length + (stripNegations (trim text)).1 ≤ text.length := by
  have outer := length_trim_le text
  have negated := length_stripNegations (trim text)
  have inner := length_trim_le (stripNegations (trim text)).2
  omega

mutual
/-- Reads a condition. -/
def readNode (text : List Char) : Except ExpressionError Expression :=
  if (trim text).isEmpty then .error .empty
  else
    match orParts : splitTopLevel orOperator (trim text) with
    | some parts =>
      (readEach parts fun part member =>
        have := Nat.lt_of_lt_of_le (length_lt_of_mem_splitTopLevel orParts part member) (length_trim_le text)
        if part.isEmpty then .error (.missingOperand "||") else readNode part).map .any
    | none =>
      match andParts : splitTopLevel andOperator (trim text) with
      | some parts =>
        (readEach parts fun part member =>
          have := Nat.lt_of_lt_of_le (length_lt_of_mem_splitTopLevel andParts part member) (length_trim_le text)
          if part.isEmpty then .error (.missingOperand "&&") else readNode part).map .all
      | none =>
        match unequalSides : sides? unequalOperator (trim text) with
        | some (left, right) =>
          have := length_le_of_sides? unequalSides
          have := length_trim_le text
          if left.isEmpty || right.isEmpty then .error (.missingOperand "!=")
          else do
            let first ← readUnary left
            let second ← readUnary right
            return .compare first .unequal second
        | none =>
          match equalSides : sides? equalOperator (trim text) with
          | some (left, right) =>
            have := length_le_of_sides? equalSides
            have := length_trim_le text
            if left.isEmpty || right.isEmpty then .error (.missingOperand "==")
            else do
              let first ← readUnary left
              let second ← readUnary right
              return .compare first .equal second
          | none =>
            have := length_trim_le text
            readUnary (trim text)
termination_by 2 * text.length + 1
decreasing_by all_goals omega

/-- Reads negations and what they negate. -/
def readUnary (text : List Char) : Except ExpressionError Expression :=
  have := length_trim_stripNegations_le text
  if _counted : 0 < (stripNegations (trim text)).1 then
    if (trim (stripNegations (trim text)).2).isEmpty then .error .danglingNegation
    else (readUnary (trim (stripNegations (trim text)).2)).map (negations (stripNegations (trim text)).1)
  else
    match unwrapped : stripParentheses (trim (stripNegations (trim text)).2) with
    | some content =>
      have := length_lt_of_stripParentheses unwrapped
      readNode content
    | none => readOperand (trim (stripNegations (trim text)).2)
termination_by 2 * text.length
decreasing_by all_goals omega
end

/-- Reads a whole condition: balanced, and without an unsupported operator on its top
level. -/
def read (text : List Char) : Except ExpressionError Expression :=
  let trimmed := trim text
  if trimmed.isEmpty then .error .empty
  else if !isBalanced trimmed then .error .unbalanced
  else
    match unsupportedOperators.find? fun operator => occursAtTop operator.toList trimmed with
    | some operator => .error (.unsupportedOperator operator)
    | none => readNode trimmed

/-- `read` on a string. -/
def parse (source : String) : Except ExpressionError Expression := read source.toList

end Formwork.Expression
