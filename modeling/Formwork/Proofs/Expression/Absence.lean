import Formwork.Expression.Evaluation
import Formwork.Proofs.Expression.RoundTrip

/-!
# Comparisons with what does not exist

A comparison has two sides, and it does not matter which of them stands on the left (`evaluate_compare_comm`). A reference
that leads nowhere is no side at all, so every comparison with it is false, be it `==` or `!=`. Parentheses around
a side change nothing, since they leave no trace in a condition (`Spells.parenthesized`).

A reference with its suffix is a side wherever it leads, because it always has a truth value. If it leads nowhere, it
compares as the truth value false, and the comparison comes out as the truth of the other side wills
(`ComparesAbsent`). So it may be true (`compare_absent_active`).
-/

set_option autoImplicit false

namespace Formwork.Expression

open Formwork.Text

/-! ## Sides -/

/-- The side of a comparison that a condition stands for. -/
def side? (scope : Path) (lookup : Lookup) (expression : Expression) : Option Operand :=
  expression.operand? scope lookup (expression.evaluate scope lookup)

namespace Operand

/-- The truth of a side. -/
def isTruthy : Operand → Bool
  | .value held => held.isTruthy
  | .flag truth => truth
  | .literal meant => meant.isTruthy

theorem equals_comm (first second : Operand) : first.equals second = second.equals first := by
  cases first with
  | value held => cases second with
    | value other => exact congr_arg₂ Bool.or BEq.comm BEq.comm
    | flag truth => rfl
    | literal meant => rfl
  | flag truth => cases second with
    | value held => rfl
    | flag other => exact BEq.comm
    | literal meant => rfl
  | literal meant => cases second with
    | value held => rfl
    | flag truth => rfl
    | literal other => exact BEq.comm

/-- A truth value equals whatever has this truth. -/
theorem equals_flag (truth : Bool) (side : Operand) : (Operand.flag truth).equals side = (truth == side.isTruthy) := by
  cases side <;> rfl

end Operand

variable {scope : Path} {lookup : Lookup} {comparison : Comparison}

theorem compareOperands_comm (left right : Option Operand) :
    compareOperands comparison left right = compareOperands comparison right left := by
  cases left with
  | none => cases right <;> rfl
  | some first => cases right with
    | none => rfl
    | some second => simp only [compareOperands, first.equals_comm second]

/-- The sides of a comparison may be exchanged. -/
theorem evaluate_compare_comm (left right : Expression) :
    (compare left comparison right).evaluate scope lookup = (compare right comparison left).evaluate scope lookup := by
  simp only [evaluate]
  exact compareOperands_comm _ _

/-! ## References that lead nowhere -/

/-- How comparisons come out with a reference, seen from a scope, that leads nowhere. -/
structure ComparesAbsent (target : Reference) (scope : Path) (lookup : Lookup) : Prop where
  /-- With the plain reference on the left they are false. -/
  left : ∀ comparison other, (compare (.reference target) comparison other).evaluate scope lookup = false
  /-- With the plain reference on the right they are false. -/
  right : ∀ comparison other, (compare other comparison (.reference target)).evaluate scope lookup = false
  /-- With the suffix behind the reference they are true exactly if the other side exists, and is false for `==` or
  true for `!=`. -/
  activeLeft : ∀ comparison other, (compare (.active target) comparison other).evaluate scope lookup = true ↔
    ∃ side, other.side? scope lookup = some side ∧ side.isTruthy = (comparison == .unequal)
  activeRight : ∀ comparison other, (compare other comparison (.active target)).evaluate scope lookup = true ↔
    ∃ side, other.side? scope lookup = some side ∧ side.isTruthy = (comparison == .unequal)

section Absent

variable {target : Reference} (absent : target.resolve scope lookup = none)
include absent

theorem side?_reference_absent : (reference target).side? scope lookup = none := by
  rw [side?, operand?, absent]

/-- With its suffix the reference compares as the truth value false. -/
theorem side?_active_absent : (active target).side? scope lookup = some (.flag false) := by
  rw [side?, operand?, evaluate, absent]
  · rfl
  · exact nofun
  · exact nofun

/-- A comparison with a plain reference that leads nowhere is false, and one with its suffix is true only where the truth
of the other side makes it so. -/
theorem comparesAbsent : ComparesAbsent target scope lookup := by
  have plain (comparison : Comparison) (other : Expression) :
      (compare (.reference target) comparison other).evaluate scope lookup = false := by
    have noSide : (reference target).side? scope lookup = none := side?_reference_absent absent
    rw [evaluate, ← side?, noSide]
    rfl
  have active (comparison : Comparison) (other : Expression) :
      (compare (.active target) comparison other).evaluate scope lookup = true ↔
        ∃ side, other.side? scope lookup = some side ∧ side.isTruthy = (comparison == .unequal) := by
    have isFalse : (Expression.active target).side? scope lookup = some (.flag false) := side?_active_absent absent
    rw [evaluate, ← side?, ← side?, isFalse]
    cases other.side? scope lookup with
    | none => simp [compareOperands]
    | some side =>
        have isEqual : (Comparison.equal == Comparison.unequal) = false := rfl
        cases comparison with
        | equal => simp [compareOperands, Operand.equals_flag, isEqual]
        | unequal => simp [compareOperands, Operand.equals_flag]
  refine ⟨plain, fun comparison other => ?_, active, fun comparison other => ?_⟩
  · rw [evaluate_compare_comm]
    exact plain comparison other
  · rw [evaluate_compare_comm]
    exact active comparison other

end Absent

/-! ## In sources -/

/-- Where there is nothing, a reference in parentheses is unlike no text. -/
theorem comparesAbsent_missing :
    parse "((missing)) != \x27x\x27" = .ok (.compare (.reference ⟨0, ⟨["missing"]⟩⟩) .unequal (.literal (.text "x"))) ∧
      (Reference.mk 0 ⟨["missing"]⟩).resolve .root (fun _ => none) = none ∧
        ComparesAbsent ⟨0, ⟨["missing"]⟩⟩ .root (fun _ => none) := by
  have named : (Reference.mk 0 ⟨["missing"]⟩).Named := by decide
  have reference : Spells "missing".toList (.reference ⟨0, ⟨["missing"]⟩⟩) :=
    .of_unquoted (by decide) (by decide) (readOperand_reference named (by decide) (by decide) (by decide))
  have literal : Spells "\x27x\x27".toList (.literal (.text "x")) :=
    @Spells.of_quoted _ (.inl rfl) ['x'] (by decide)
  have space : ∀ character ∈ [' '], isBlank character = true := by decide
  have spells := reference.parenthesized.parenthesized.compare literal .unequal space
  exact ⟨spells.parse, rfl, comparesAbsent rfl⟩

/-- With its suffix, a reference that leads nowhere is unlike the truth value true. -/
theorem compare_absent_active :
    parse "missing:active != true" = .ok (.compare (.active ⟨0, ⟨["missing"]⟩⟩) .unequal (.literal (.flag true))) ∧
      (Reference.mk 0 ⟨["missing"]⟩).resolve .root (fun _ => none) = none ∧
        (compare (.active ⟨0, ⟨["missing"]⟩⟩) .unequal (.literal (.flag true))).evaluate .root (fun _ => none) = true := by
  have named : (Reference.mk 0 ⟨["missing"]⟩).Named := by decide
  have active : Spells "missing:active".toList (.active ⟨0, ⟨["missing"]⟩⟩) :=
    .of_unquoted (by decide) (by decide) (readOperand_active named)
  have literal : Spells "true".toList (.literal (.flag true)) :=
    .of_unquoted (by decide) (by decide) (readOperand_flag true)
  have space : ∀ character ∈ [' '], isBlank character = true := by decide
  have spells := active.compare literal .unequal space
  exact ⟨spells.parse, rfl, rfl⟩

end Formwork.Expression
