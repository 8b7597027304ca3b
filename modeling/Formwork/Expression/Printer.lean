import Formwork.Expression
import Formwork.Text.Nesting

/-!
# Printing conditions

A condition is printed with parentheses around an operand only where the operand binds
no tighter than what it stands in. From loosest to tightest: `||`, `&&`, comparison, `!`,
operand. A text is quoted with a quote that it does not contain; which one, and how many
blanks stand around an operator, is up to the style.
-/

set_option autoImplicit false

namespace Formwork

open Formwork.Text

/-- A text between two quotes. -/
def Literal.quoted (quote : Char) (content : List Char) : List Char := quote :: (content ++ [quote])

/-- The single quote, or the double one for a text that contains a single one. -/
def Literal.preferredQuote (content : List Char) : Char :=
  if content.contains singleQuote then doubleQuote else singleQuote

namespace Expression

/-- What a printer may choose: a quote for every text, one that the text does not contain
unless it contains both, and the blanks on either side of an operator. -/
structure Style where
  quote : List Char → Char
  blanks : List Char
  quotes : ∀ content, quote content = singleQuote ∨ quote content = doubleQuote
  absent : ∀ content, ¬(singleQuote ∈ content ∧ doubleQuote ∈ content) → quote content ∉ content
  blank : ∀ character ∈ blanks, isBlank character = true

/-- Single quotes where they are possible, and one space around an operator. -/
def Style.standard : Style where
  quote := Literal.preferredQuote
  blanks := [' ']
  quotes content := by
    unfold Literal.preferredQuote
    split
    · exact .inr rfl
    · exact .inl rfl
  absent content oneAtMost := by
    unfold Literal.preferredQuote
    split
    · rename_i single
      exact fun double => oneAtMost ⟨List.contains_iff_mem.mp single, double⟩
    · rename_i single
      exact fun inside => single (List.contains_iff_mem.mpr inside)
  blank character inside := by
    rw [List.mem_singleton.mp inside]
    rfl

/-- How tightly the outermost operator binds. -/
def tightness : Expression → Nat
  | .any _ => 0
  | .all _ => 1
  | .compare .. => 2
  | .not _ => 3
  | _ => 4

/-- Puts parentheses around a text. -/
def parenthesized (text : List Char) : List Char := '(' :: (text ++ [')'])

/-- The text of an operand in a context: in parentheses unless it binds tighter. -/
def inContext (context tightness : Nat) (text : List Char) : List Char :=
  if context < tightness then text else parenthesized text

section Printing

variable (style : Style)

/-- The text of a literal. -/
def printLiteral : Literal → List Char
  | .text content => Literal.quoted (style.quote content.toList) content.toList
  | other => other.asText.toList

/-- The operator between two operands, with its blanks. -/
def spaced (operator : String) : List Char := style.blanks ++ (operator.toList ++ style.blanks)

mutual
/-- The text of a condition. -/
def printChars : Expression → List Char
  | .reference target => target.text.toList
  | .active target => target.text.toList ++ [':', 'a', 'c', 't', 'i', 'v', 'e']
  | .literal value => printLiteral style value
  | .not operand => '!' :: inContext 3 operand.tightness (printChars operand)
  | .all operands => printOperands 1 "&&" true operands
  | .any operands => printOperands 0 "||" true operands
  | .compare left comparison right =>
    inContext 2 left.tightness (printChars left) ++ (spaced style comparison.operator ++
      inContext 2 right.tightness (printChars right))

/-- The operands of `&&` or `||`, with the operator in front of all but the first. -/
def printOperands (context : Nat) (operator : String) : Bool → List Expression → List Char
  | _, [] => []
  | isFirst, operand :: rest =>
    (if isFirst then [] else spaced style operator) ++ (inContext context operand.tightness (printChars operand) ++
      printOperands context operator false rest)
end

/-- The text of a condition. -/
def print (expression : Expression) : String := String.ofList (printChars style expression)

end Printing

end Expression

end Formwork
