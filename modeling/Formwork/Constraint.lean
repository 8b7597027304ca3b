import Formwork.Pattern.Reader

/-!
# Constraints on texts

A field may bound the number of characters of its text and demand a pattern. The empty text
breaks no constraint: whether a field may be empty is decided elsewhere. The first broken
rule is reported, in the order least length, greatest length, pattern.
-/

set_option autoImplicit false

namespace Formwork

/-- A broken rule. -/
inductive Violation where
  | minLength (bound : Nat)
  | maxLength (bound : Nat)
  /-- The text does not match the pattern. -/
  | pattern
  /-- The text is not of the kind that the widget takes. -/
  | invalid
  | invalidChoice (choice : String)
deriving DecidableEq, Repr

namespace Violation

/-- The key under which a field may declare a message of its own. -/
def messageKey : Violation → String
  | .minLength _ => "min_length"
  | .maxLength _ => "max_length"
  | .pattern => "invalid"
  | .invalid => "invalid"
  | .invalidChoice _ => "invalid_choice"

/-- The message of a rule without a message of its own. -/
def message : Violation → String
  | .minLength bound => "Ensure this value has at least " ++ Text.indexText bound ++ " characters."
  | .maxLength bound => "Ensure this value has at most " ++ Text.indexText bound ++ " characters."
  | .pattern => "Enter a valid value."
  | .invalid => "Enter a valid value."
  | .invalidChoice choice =>
    "Select a valid choice. " ++ choice ++ " is not one of the available choices."

end Violation

/-- The rules for a text. -/
structure TextRules where
  minLength : Option Nat
  maxLength : Option Nat
  pattern : Option Pattern
deriving Repr

namespace TextRules

/-- Whether there is no rule. -/
def isEmpty (rules : TextRules) : Bool :=
  rules.minLength.isNone && rules.maxLength.isNone && rules.pattern.isNone

/-- The first rule that a text breaks. -/
def violation? (rules : TextRules) (text : String) : Option Violation :=
  let tooShort := rules.minLength.filter fun bound => text.length < bound
  let tooLong := rules.maxLength.filter fun bound => bound < text.length
  let unmatched := rules.pattern.filter fun pattern => !pattern.isMatch text.toList
  if text.isEmpty then none
  else
    match tooShort, tooLong, unmatched with
    | some bound, _, _ => some (.minLength bound)
    | none, some bound, _ => some (.maxLength bound)
    | none, none, some _ => some .pattern
    | none, none, none => none

end TextRules

end Formwork
