import Formwork.Proofs.Expression.Operands

/-!
# Reading conditions step by step

What the two readers do with a text, by what the searches find in it. A text with `||` on its top level is read
part by part (`readNode_any`), without it one with `&&` (`readNode_all`), without both the sides of a comparison
are read (`readNode_compare`), and without any operator the text itself is read for negations (`readNode_unary`).
Those are counted (`readUnary_negation`); a text without any is read inside its parentheses
(`readUnary_parenthesized`), or as an operand (`readUnary_operand`).
-/

set_option autoImplicit false

namespace Formwork

namespace Text

/-- Items are read back if every one of them is read back from its text. -/
theorem readEach_map {α β ε : Type} {written : β → α} {items : List β}
    {read : (text : α) → text ∈ items.map written → Except ε β}
    (reads : ∀ item ∈ items, ∀ member, read (written item) member = .ok item) :
    readEach (items.map written) read = .ok items := by
  induction items with
  | nil => rfl
  | cons item rest ih =>
      change readEach (written item :: rest.map written) read = .ok (item :: rest)
      rw [readEach, reads item List.mem_cons_self,
        ih fun other inside member => reads other (List.mem_cons_of_mem _ inside) _]

end Text

namespace Expression

open Formwork.Text

/-! ## The sides of a comparison -/

theorem sides?_eq_none {operator text : List Char} (passes : passesOver operator .top text = true) :
    sides? operator text = none := by
  rw [sides?, breakTopLevel_eq_none passes]
  rfl

/-- The sides of an operator are the texts around it. -/
theorem sides?_join {first : Char} {operator left right blanks : List Char}
    (unmarked : Nesting.top.isMark first = false) (visible : isBlank first = false)
    (blank : ∀ character ∈ blanks, isBlank character = true) (tightLeft : Tight left) (tightRight : Tight right)
    (whole : Whole (first :: operator) left) :
    sides? (first :: operator) (left ++ ((blanks ++ (first :: operator ++ blanks)) ++ right)) =
      some (left, right) := by
  have regroup : left ++ ((blanks ++ (first :: operator ++ blanks)) ++ right) =
      (left ++ blanks) ++ (first :: operator ++ (blanks ++ right)) := by
    simp only [List.append_assoc]
  rw [sides?, regroup, breakTopLevel_operator unmarked (whole.append (whole_of_blank visible blank)),
    Option.map_some]
  dsimp only
  rw [List.drop_left, tightLeft.trim_back blank, tightRight.trim_front blank]

/-! ## Reading step by step -/

section Reading

variable {text : List Char} (tight : Tight text)
include tight

theorem not_isEmpty_trim : ¬(trim text).isEmpty = true := by
  rw [tight.trim_eq, List.isEmpty_iff]
  exact tight.ne_nil

section Parts

variable {operands : List Expression} {written : Expression → List Char}
variable (reads : ∀ operand ∈ operands, written operand ≠ [] ∧ readNode (written operand) = .ok operand)
include reads

theorem readNode_any (parts : splitTopLevel orOperator text = some (operands.map written)) :
    readNode text = .ok (.any operands) := by
  rw [readNode, if_neg (not_isEmpty_trim tight)]
  split
  · rename_i found orParts
    rw [tight.trim_eq, parts] at orParts
    cases orParts
    rw [readEach_map]
    · rfl
    · intro operand inside member
      obtain ⟨some, read⟩ := reads operand inside
      rw [if_neg (by simpa using some), read]
  · rename_i none
    rw [tight.trim_eq, parts] at none
    cases none

theorem readNode_all (noOr : splitTopLevel orOperator text = none)
    (parts : splitTopLevel andOperator text = some (operands.map written)) :
    readNode text = .ok (.all operands) := by
  rw [readNode, if_neg (not_isEmpty_trim tight)]
  split
  · rename_i found
    rw [tight.trim_eq, noOr] at found
    cases found
  · split
    · rename_i found andParts
      rw [tight.trim_eq, parts] at andParts
      cases andParts
      rw [readEach_map]
      · rfl
      · intro operand inside member
        obtain ⟨some, read⟩ := reads operand inside
        rw [if_neg (by simpa using some), read]
    · rename_i none
      rw [tight.trim_eq, parts] at none
      cases none

end Parts

section Sides

variable (noOr : splitTopLevel orOperator text = none) (noAnd : splitTopLevel andOperator text = none)
include noOr noAnd

/-- Without `||` and `&&`, the two comparisons are looked for in turn. -/
theorem readNode_eq : readNode text =
    match sides? unequalOperator (trim text) with
    | some (left, right) =>
      if left.isEmpty || right.isEmpty then .error (.missingOperand "!=")
      else do return .compare (← readUnary left) .unequal (← readUnary right)
    | none =>
      match sides? equalOperator (trim text) with
      | some (left, right) =>
        if left.isEmpty || right.isEmpty then .error (.missingOperand "==")
        else do return .compare (← readUnary left) .equal (← readUnary right)
      | none => readUnary (trim text) := by
  rw [readNode, if_neg (not_isEmpty_trim tight)]
  split
  · rename_i found
    rw [tight.trim_eq, noOr] at found
    cases found
  · split
    · rename_i found
      rw [tight.trim_eq, noAnd] at found
      cases found
    · split
      · rename_i found
        dsimp only
        rw [found]
      · rename_i noUnequal
        rw [noUnequal]
        split
        · rename_i found
          dsimp only
          rw [found]
        · rename_i noEqual
          rw [noEqual]

theorem readNode_compare {left right : List Char} {first second : Expression} {comparison : Comparison}
    (noUnequal : comparison = .equal → sides? unequalOperator text = none)
    (sides : sides? comparison.operator.toList text = some (left, right))
    (someLeft : left ≠ []) (someRight : right ≠ []) (readFirst : readUnary left = .ok first)
    (readSecond : readUnary right = .ok second) : readNode text = .ok (.compare first comparison second) := by
  have some : ¬(left.isEmpty || right.isEmpty) = true := by simp [someLeft, someRight]
  rw [readNode_eq tight noOr noAnd, tight.trim_eq]
  cases comparison with
  | unequal =>
      have sidesUnequal : sides? unequalOperator text = _ := sides
      simp [sidesUnequal, some, readFirst, readSecond, bind, Except.bind, pure, Except.pure]
  | equal =>
      have sidesEqual : sides? equalOperator text = _ := sides
      simp [noUnequal rfl, sidesEqual, some, readFirst, readSecond, bind, Except.bind, pure, Except.pure]

theorem readNode_unary (noUnequal : sides? unequalOperator text = none) (noEqual : sides? equalOperator text = none) :
    readNode text = readUnary text := by
  rw [readNode_eq tight noOr noAnd, tight.trim_eq, noUnequal, noEqual]

end Sides

section Negations

variable (noNegation : text.head? ≠ some '!')
include noNegation

/-- A text without a `!` in front has no negations to be taken off. -/
theorem stripNegations_eq : stripNegations text = (0, text) := by
  obtain ⟨character, first, visible⟩ := tight.first
  obtain ⟨rest, rfl⟩ := List.head?_eq_some_iff.mp first
  refine stripNegations_of_ne visible ?_
  rintro rfl
  exact noNegation rfl

/-- One `!` in front of a text without any negates what is read from the text. -/
theorem readUnary_negation (noEqual : text.head? ≠ some '=') :
    readUnary ('!' :: text) = (readUnary text).map .not := by
  have stripped : stripNegations (trim ('!' :: text)) = (1, text) := by
    rw [(tight.cons (by decide)).trim_eq, stripNegations_negation noEqual, stripNegations_eq tight noNegation]
  rw [readUnary, dif_pos (by rw [stripped]; exact Nat.one_pos), stripped, if_neg (not_isEmpty_trim tight),
    tight.trim_eq]
  rfl

/-- Without negations, parentheses are taken off, or an operand is read. -/
theorem readUnary_eq : readUnary text =
    match stripParentheses text with
    | some content => readNode content
    | none => readOperand text := by
  have stripped : stripNegations (trim text) = (0, text) := by
    rw [tight.trim_eq, stripNegations_eq tight noNegation]
  have left : trim (stripNegations (trim text)).2 = text := by
    rw [stripped, tight.trim_eq]
  rw [readUnary, dif_neg (by rw [stripped]; exact Nat.lt_irrefl 0)]
  split
  · rename_i found
    rw [left] at found
    rw [found]
  · rename_i none
    rw [left] at none ⊢
    rw [none]

theorem readUnary_operand (noParenthesis : text.head? ≠ some '(') : readUnary text = readOperand text := by
  obtain ⟨character, rest, rfl⟩ := List.exists_cons_of_ne_nil tight.ne_nil
  have noOpening : character ≠ '(' := by
    rintro rfl
    exact noParenthesis rfl
  rw [readUnary_eq tight noNegation, stripParentheses_of_ne noOpening]

end Negations

/-- Parentheses around a balanced text are taken off. -/
theorem readUnary_parenthesized (balanced : isBalanced text = true) :
    readUnary (parenthesized text) = readNode text := by
  have outer : Tight (parenthesized text) := .between text (by decide) (by decide)
  have unwrapped : stripParentheses (parenthesized text) = some (trim text) :=
    stripParentheses_parentheses balanced
  rw [readUnary_eq outer (by simp [parenthesized]), unwrapped, tight.trim_eq]

end Reading

end Expression

end Formwork
