import Formwork.Proofs.Erasing
import Formwork.Proofs.Node.Redrawing
import Formwork.Proofs.Node.Validity

/-!
# Withheld values

The value of a field that is hidden or disabled is *withheld*: it is not to be seen from outside. Veiling
puts the blank value of the same kind in the place of every withheld value, so two nodes are the same once
they are veiled if they differ at most in withheld values, each of the same kind in both
(`Field.veil_eq_iff`).

What is said about the data of a node can be read off the veiled node: what is sent, what is collected, what
fails in a validation, and whether everything is valid. A hidden field that is not disabled is sent, but
blank, so of its value only the kind is told. That flags agree with those of the form or fieldset around is
not needed for any of this, since each answer asks the fields themselves.
-/

set_option autoImplicit false

namespace Formwork

open Formwork.Text

/-! ## Fields -/

namespace Field

/-- Whether the value of the field is not to be seen from outside. -/
def isWithheld (field : Field) : Bool := field.hidden || field.disabled

/-- The field with a blank value of the same kind in place of a withheld one. -/
def veil (field : Field) : Field :=
  if field.isWithheld then { field with value := field.value.blank } else field

/-- The field with a value in place of a withheld one of the same kind. -/
def exchange (value : Value) (field : Field) : Field :=
  if field.isWithheld && field.value.blank == value.blank then { field with value := value } else field

variable {field : Field}

theorem veil_eq_self (seen : field.isWithheld = false) : field.veil = field := by
  rw [veil, seen]
  rfl

theorem veil_of_isWithheld (withheld : field.isWithheld = true) :
    field.veil = { field with value := field.value.blank } := if_pos withheld

@[simp]
theorem isWithheld_veil (field : Field) : field.veil.isWithheld = field.isWithheld := by
  unfold veil
  split
  · rfl
  · rfl

/-- Two fields are the same once they are veiled if they differ at most in their values, and in these only if
they are withheld and of one kind. -/
theorem veil_eq_iff {first second : Field} : first.veil = second.veil ↔
    { first with value := second.value } = second ∧
      (first.isWithheld = true ∧ first.value.blank = second.value.blank ∨ first.value = second.value) := by
  have flags (same : { first with value := second.value } = second) : first.isWithheld = second.isWithheld := by
    rw [← same]
    rfl
  constructor
  · intro same
    have flags : first.isWithheld = second.isWithheld := by
      rw [← isWithheld_veil first, same, isWithheld_veil]
    by_cases withheld : first.isWithheld = true
    · rw [veil_of_isWithheld withheld, veil_of_isWithheld (flags ▸ withheld)] at same
      refine ⟨?_, .inl ⟨withheld, congrArg Field.value same⟩⟩
      exact congrArg (fun entry : Field => { entry with value := second.value }) same
    · rw [Bool.not_eq_true] at withheld
      rw [veil_eq_self withheld, veil_eq_self (flags ▸ withheld)] at same
      subst same
      exact ⟨rfl, .inr rfl⟩
  · rintro ⟨same, ⟨withheld, kind⟩ | value⟩
    · rw [veil_of_isWithheld withheld, veil_of_isWithheld (flags same ▸ withheld), kind]
      exact congrArg (fun entry : Field => { entry with value := second.value.blank }) same
    · rw [← same, ← value]

/-- A withheld value may be exchanged for any other one of its kind. -/
theorem veil_exchange (value : Value) (field : Field) : (field.exchange value).veil = field.veil := by
  rw [exchange]
  split
  · rename_i free
    rw [Bool.and_eq_true, beq_iff_eq] at free
    exact veil_eq_iff.mpr ⟨rfl, .inl ⟨free.1, free.2.symm⟩⟩
  · rfl

@[simp]
theorem isOperable_veil (field : Field) : field.veil.isOperable = field.isOperable := by
  unfold veil
  split
  · rfl
  · rfl

@[simp]
theorem isSent_veil (field : Field) : field.veil.isSent = field.isSent := by
  unfold veil
  split
  · rfl
  · rfl

/-- The value of a field that takes part in validation is not withheld. -/
theorem veil_of_isOperable (operable : field.isOperable = true) : field.veil = field := by
  rw [isOperable, Bool.and_eq_true, Bool.and_eq_true, Bool.not_eq_true', Bool.not_eq_true'] at operable
  exact veil_eq_self (by rw [isWithheld, operable.1.1, operable.1.2, Bool.or_false])

theorem unseen_veil : Unseen veil where
  isOperable := isOperable_veil
  check field operable := by rw [veil_of_isOperable operable]

/-- A field that is sent sends its value if it is visible, and otherwise something blank. -/
theorem wireValue_veil (sent : field.isSent = true) : field.veil.wireValue = field.wireValue := by
  rw [isSent, Bool.and_eq_true, Bool.not_eq_true', Bool.not_eq_true'] at sent
  by_cases hidden : field.hidden = true
  · have withheld : field.isWithheld = true := by rw [isWithheld, hidden, Bool.true_or]
    rw [veil_of_isWithheld withheld, wireValue, wireValue, if_pos hidden, if_pos hidden, Value.blank_blank]
  · rw [veil_eq_self (by rw [isWithheld, sent.2, Bool.or_false, Bool.eq_false_iff.mpr hidden])]

end Field

/-! ## Members -/

namespace Member

variable (members : List (String × Member))

theorem operable_veil (path : Path) : operable path (mapAll Field.veil id members) = operable path members := by
  rw [operable, fields_mapAll, List.filter_map]
  have same (entry : Path × Field) (inside : entry ∈ operable path members) :
      (entry.1, entry.2.veil) = entry :=
    Prod.ext rfl (Field.veil_of_isOperable (List.mem_filter.mp inside).2)
  simp only [Function.comp_def, Field.isOperable_veil]
  exact (List.map_congr_left same).trans (List.map_id _)

theorem areValid_veil : areValid (mapAll Field.veil id members) = areValid members := by
  induction members using groupInduction with
  | step members ih =>
      rw [Bool.eq_iff_iff, areValid_iff, areValid_iff, mapAll_eq, List.forall_mem_map]
      refine forall₂_congr fun entry inside => ?_
      have beneath := ih entry inside
      obtain ⟨name, member⟩ := entry
      cases member with
      | field entry =>
          rw [map, isValid, isValid, Field.isOperable_veil]
          by_cases operable : entry.isOperable = true
          · rw [Field.veil_of_isOperable operable]
          · simp [operable]
      | fieldset group inner =>
          have same : areValid (mapAll Field.veil id inner) = areValid inner := beneath
          rw [map, isValid, isValid, same]
          rfl

end Member

/-! ## Forms -/

namespace Form

/-- The form with blank values of the same kinds in place of withheld ones. -/
def veil (form : Form) : Form := form.map Field.veil id

variable (form : Form)

@[simp]
theorem isClosedDialog_veil : form.veil.isClosedDialog = form.isClosedDialog := rfl

@[simp]
theorem failures_veil (path : Path) : form.veil.failures path = form.failures path :=
  failures_map Field.unseen_veil id path form

@[simp]
theorem collected_veil (path : Path) : form.veil.collected path = form.collected path :=
  congrArg (List.map fun entry : Path × Field => (entry.1, entry.2.value))
    (Member.operable_veil form.members path)

@[simp]
theorem isValid_veil : form.veil.isValid = form.isValid := by
  have members : Member.areValid form.veil.members = Member.areValid form.members :=
    Member.areValid_veil form.members
  rw [isValid, isValid, members]
  rfl

@[simp]
theorem wire_veil : form.veil.wire = form.wire := by
  have fields : form.veil.fields .root = (form.fields .root).map fun entry => (entry.1, entry.2.veil) :=
    Member.fields_mapAll ..
  rw [wire, wire, fields, List.filter_map, List.map_map]
  simp only [Function.comp_def, Field.isSent_veil]
  refine congrArg Json.object (List.map_congr_left fun entry inside => ?_)
  rw [Field.wireValue_veil (List.mem_filter.mp inside).2]

end Form

/-! ## Nodes -/

namespace Node

/-- The node with blank values of the same kinds in place of withheld ones. -/
def veil : Node → Node := mapForms Form.veil

variable (node : Node)

theorem liveForms_veil (path : Path) :
    node.veil.forms true path = (node.forms true path).map fun entry => (entry.1, entry.2.veil) := by
  rw [veil, mapForms_eq Form.veil path, liveForms_map]

@[simp]
theorem failures_veil (path : Path) : node.veil.failures path = node.failures path :=
  failures_mapForms Field.unseen_veil id path node

@[simp]
theorem isValid_veil : node.veil.isValid = node.isValid := by
  rw [isValid, isValid, liveForms_veil, List.all_map]
  simp only [Function.comp_def, Form.isClosedDialog_veil, Form.isValid_veil]

@[simp]
theorem collected_veil (path : Path) : node.veil.collected path = node.collected path := by
  rw [collected, collected, liveForms_veil, List.flatMap_map]
  simp only [Form.collected_veil]

theorem collectedAll_veil (path : Path) (members : List (String × Node)) :
    collectedAll path (members.map fun entry => (entry.1, entry.2.veil)) = collectedAll path members := by
  rw [collectedAll, collectedAll, List.flatMap_map]
  simp only [collected_veil]

theorem siblingData_veil (path : Path) : node.veil.siblingData path = node.siblingData path := by
  cases node with
  | form content => rfl
  | collection frame progress members =>
      rw [veil, mapForms_collection, siblingData, siblingData]
      exact congrArg (fun values => some (SiblingData.single values)) (collectedAll_veil path members)
  | series frame template siblings =>
      rw [veil, mapForms_series, siblingData, siblingData, List.zipIdx_map, List.filter_map, List.map_map]
      refine congrArg (fun values => some (SiblingData.siblings values)) ?_
      simp only [Function.comp_def, Prod.map_fst, Prod.map_snd, Sibling.isPristine_mk, Sibling.members_mk]
      exact List.map_congr_left fun entry _ => collectedAll_veil _ entry.1.members

/-- A change of forms that keeps what each of them sends keeps what the node sends. -/
theorem wire_mapForms {change : Form → Form} (keeps : ∀ content, (change content).wire = content.wire) :
    (node.mapForms change).wire = node.wire := by
  rw [← @wire_redraw id id (fun _ => rfl) (node.mapForms change), redraw_mapForms]
  exact wire_redraw keeps node

@[simp]
theorem wire_veil : node.veil.wire = node.wire := node.wire_mapForms Form.wire_veil

end Node

end Formwork
