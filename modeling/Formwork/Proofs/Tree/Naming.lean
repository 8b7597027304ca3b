import Formwork.Proofs.Action.RoundTrip
import Formwork.Proofs.Expression.RoundTrip
import Formwork.Proofs.References
import Formwork.Proofs.Tree.Reading
import Formwork.Proofs.Tree.Validation

/-!
# Fields are named by their paths

In a tree without a namespace every field is named by its path (`Tree.Reachable.names`): as a condition and as an
argument of a call, the dotted text of the path is the absolute reference to the field, and wherever a condition
stands, this reference reads the field and no other.

Names and paths are two lexical classes. A mount admits identifiers that are no rows of digits, and the segments of a
reference are identifiers, so each path can be written as a reference. But some of these texts are literals before
they are references: `true`, `false`, and what reads as a number, such as `1e5` or `nan` (`Literal.isBare`). A field at
such a path is passed over for the literal (`not_names_bare`); beneath a fieldset its path is longer, and the same name is
no obstacle.
-/

set_option autoImplicit false

namespace Formwork

open Formwork.Text

/-- Texts that are literals without quotes: the truth values and the numbers. -/
def Literal.isBare (text : String) : Bool := text == "true" || text == "false" || isNumeric text.toList

namespace Reference

variable {path : Path}

/-- Without dots in front, a reference is written as its path. -/
theorem text_absolute (path : Path) : (Reference.mk 0 path).text = path.text := by
  rw [text, List.replicate_zero, String.ofList_nil, String.empty_append]

variable (named : (Reference.mk 0 path).Named) (noLiteral : Literal.isBare path.text = false)
include named noLiteral

/-- A path of identifiers that is no literal is read as the absolute reference to it in a condition. -/
theorem Named.parse_absolute : Expression.parse path.text = .ok (.reference ⟨0, path⟩) := by
  simp only [Literal.isBare, Bool.or_eq_false_iff, beq_eq_false_iff_ne] at noLiteral
  obtain ⟨⟨notTrue, notFalse⟩, notNumeric⟩ := noLiteral
  rw [← text_absolute] at notTrue notFalse notNumeric ⊢
  have spells := Expression.spells_printChars .standard (.reference named notNumeric notTrue notFalse)
  rw [Expression.printChars] at spells
  simpa only [String.ofList_toList] using spells.parse

/-- As an argument of a call it is read as the same reference. -/
theorem Named.read_absolute : Argument.read path.text.toList = .ok (.path ⟨0, path⟩) := by
  simp only [Literal.isBare, Bool.or_eq_false_iff, beq_eq_false_iff_ne] at noLiteral
  obtain ⟨⟨notTrue, notFalse⟩, notNumeric⟩ := noLiteral
  rw [← text_absolute] at notTrue notFalse notNumeric ⊢
  exact ((Argument.Printable.path named notNumeric notTrue notFalse).spells .standard).reads

end Reference

namespace Tree

variable {tree : Tree} {path : Path} {field : Field}

/-- The segments that lead to a field, one at least, are identifiers. -/
theorem named_of_mem_fields (regular : tree.root.Regular) (top : tree.here = .root)
    (listed : (path, field) ∈ tree.fields) : (Reference.mk 0 path).Named := by
  obtain ⟨front, form, names, rfl, stands, member⟩ := Node.mem_fields_iff.mp listed
  have members := (regular.stands stands).form
  rw [top, Path.root_extend]
  refine ⟨List.append_ne_nil_of_right_ne_nil _ member.ne_nil, fun segment inside => ?_⟩
  exact (List.mem_append.mp inside).elim (stands.isIdentifier regular segment) (member.isIdentifier members segment)

/-- The absolute reference to a field reads this field, from wherever it is tried. -/
theorem resolve_absolute (regular : tree.root.Regular) (listed : (path, field) ∈ tree.fields) (scope : Path) :
    (Reference.mk 0 path).resolve scope tree.lookup = some (field.reading (tree.fires path)) := by
  have there : tree.lookup path = some (field.reading (tree.fires path)) := by
    rw [lookup_eq regular, (field?_eq_some_iff regular).mpr listed, Option.map_some]
  rw [Reference.resolve, Reference.candidates_absolute _ _ rfl, List.findSome?_cons_of_isSome]
  · exact there
  · rw [there]
    rfl

/-- A path names a field: its text is the absolute reference to it, and this reads the field. -/
structure Names (tree : Tree) (path : Path) (field : Field) : Prop where
  condition : Expression.parse path.text = .ok (.reference ⟨0, path⟩)
  argument : Argument.read path.text.toList = .ok (.path ⟨0, path⟩)
  reads : ∀ scope, (Reference.mk 0 path).resolve scope tree.lookup = some (field.reading (tree.fires path))

/-- Without a namespace the path of every field names it, unless the text of the path is a literal. -/
theorem Reachable.names (reachable : tree.Reachable) (top : tree.here = .root) (listed : (path, field) ∈ tree.fields)
    (noLiteral : Literal.isBare path.text = false) : tree.Names path field := by
  have regular := reachable.regular
  have named := named_of_mem_fields regular top listed
  exact ⟨named.parse_absolute noLiteral, named.read_absolute noLiteral, resolve_absolute regular listed⟩

/-- A form with a field `true`, a note that is shown while `true`, and a field `1e5` in a fieldset. -/
def literalNames : Blueprint where
  namespaceText := none
  root :=
    let free := { FieldPlan.standard with required := false }
    .form ⟨none, none, .absent⟩ none
      [("true", .field free), ("note", .field { free with showWhile := some "true" }),
        ("more", .fieldset ⟨none, none, .absent⟩ [("1e5", .field free)])]
  distinct := by decide

theorem mount_literalNames : ∃ tree, Tree.mount literalNames none = .ok tree ∧ tree.here = .root ∧
    tree.fields.map Prod.fst = [⟨["true"]⟩, ⟨["note"]⟩, ⟨["more", "1e5"]⟩] := by
  have runs : ((Tree.mount literalNames none).toOption.map fun tree => (tree.here, tree.fields.map Prod.fst)) =
      some (.root, [⟨["true"]⟩, ⟨["note"]⟩, ⟨["more", "1e5"]⟩]) := by decide +kernel
  obtain ⟨tree, mounted, same⟩ := Option.map_eq_some_iff.mp runs
  rw [toOption_eq_some] at mounted
  obtain ⟨top, places⟩ := Prod.mk.inj same
  exact ⟨tree, mounted, top, places⟩

/-- The path of the field in the fieldset names it, though the name of this field alone is a number. -/
theorem names_nested : ∃ tree field, Tree.mount literalNames none = .ok tree ∧ tree.here = .root ∧
    (⟨["more", "1e5"]⟩, field) ∈ tree.fields ∧ Literal.isBare "1e5" = true ∧
      Literal.isBare (Path.text ⟨["more", "1e5"]⟩) = false ∧ tree.Names ⟨["more", "1e5"]⟩ field := by
  obtain ⟨tree, mounted, top, places⟩ := mount_literalNames
  have among : ⟨["more", "1e5"]⟩ ∈ tree.fields.map Prod.fst := by simp [places]
  obtain ⟨⟨_, field⟩, listed, rfl⟩ := List.mem_map.mp among
  have noLiteral : Literal.isBare (Path.text ⟨["more", "1e5"]⟩) = false := by decide
  exact ⟨tree, field, mounted, top, listed, by decide, noLiteral,
    (Reachable.mounted mounted).names top listed noLiteral⟩

/-- The field `true` is not named by its path: in conditions and in calls the text is the truth value. -/
theorem not_names_bare : ∃ tree field, Tree.mount literalNames none = .ok tree ∧ tree.here = .root ∧
    (⟨["true"]⟩, field) ∈ tree.fields ∧ Path.text ⟨["true"]⟩ = "true" ∧
      Expression.parse "true" = .ok (.literal (.flag true)) ∧ Argument.read "true".toList = .ok (.flag true) ∧
        ¬tree.Names ⟨["true"]⟩ field := by
  obtain ⟨tree, mounted, top, places⟩ := mount_literalNames
  have among : ⟨["true"]⟩ ∈ tree.fields.map Prod.fst := by simp [places]
  obtain ⟨⟨_, field⟩, listed, rfl⟩ := List.mem_map.mp among
  have condition : Expression.parse "true" = .ok (.literal (.flag true)) :=
    (Expression.spells_printChars .standard (.flag true)).parse
  refine ⟨tree, field, mounted, top, listed, by rfl, condition, by rfl, fun names => ?_⟩
  exact absurd (condition.symm.trans names.condition) (by simp)

end Tree

end Formwork
