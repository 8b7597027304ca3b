import Formwork.Proofs.Node.Shifting

/-!
# What a validation makes valid

A validation answers the operable fields that are invalid (`failures`), records the outcome on every field
that it checks (`validate`), and forgets the messages about a form or fieldset whose fields are all valid. So
if nothing failed, everything is valid afterwards, whatever messages were shown before
(`Node.isValid_validate`).

Validation, the answer to it and the values that are collected look at the same forms: those outside pristine
siblings. A change of everything changes these forms where they stand (`Node.liveForms_map`).
-/

set_option autoImplicit false

namespace Formwork

open Formwork.Text

/-- A change of fields that a validation does not see. -/
structure Field.Unseen (change : Field → Field) : Prop where
  isOperable : ∀ field : Field, (change field).isOperable = field.isOperable
  check : ∀ field : Field, field.isOperable = true → (change field).check = field.check

theorem Field.unseen_clearErrors : Field.Unseen Field.clearErrors := ⟨fun _ => rfl, fun _ _ => rfl⟩

/-! ## Members and forms -/

namespace Member

variable {members : List (String × Member)}

/-- Nothing fails if every operable field is valid. -/
theorem failures_eq_nil_iff {path : Path} : failures path members = [] ↔
    ∀ names field, Stands members names (.field field) → field.isOperable = true → field.isValid = true := by
  simp only [failures, List.filterMap_eq_nil_iff]
  constructor
  · intro passed names field stands operable
    by_contra invalid
    have inside : (path.extend ⟨names⟩, field) ∈ Member.operable path members :=
      List.mem_filter.mpr ⟨mem_fields_iff.mpr ⟨names, rfl, stands⟩, operable⟩
    have answered := passed _ inside
    rw [if_neg invalid] at answered
    cases answered
  · intro valid entry inside
    obtain ⟨listed, operable⟩ := List.mem_filter.mp inside
    obtain ⟨names, -, stands⟩ := mem_fields_iff.mp listed
    exact if_pos (valid names entry.2 stands operable)

theorem areValid_iff : areValid members = true ↔ ∀ entry ∈ members, entry.2.isValid = true := by
  induction members with
  | nil => simp [areValid]
  | cons entry rest ih => simp [areValid, ih]

/-- If no field fails, all members are valid once they are checked. -/
theorem areValid_validateAll {path : Path} (passed : failures path members = []) (place : Path) :
    areValid (validateAll place members) = true := by
  rw [failures_eq_nil_iff] at passed
  induction members using groupInduction generalizing place with
  | step members ih =>
      rw [validateAll_eq, areValid_iff, List.forall_mem_map]
      rintro ⟨name, member⟩ inside
      cases member with
      | field entry =>
          rw [validate, isValid]
          by_cases operable : entry.isOperable = true
          · rw [if_pos operable]
            have valid : entry.validate.isValid = true := passed [name] entry (.here inside) operable
            rw [valid, Bool.or_true]
          · rw [if_neg operable]
            simp [operable]
      | fieldset group inner =>
          have beneath (names : List String) (field : Field) (stands : Stands inner names (.field field)) :=
            passed (name :: names) field (.beneath inside stands)
          rw [validate]
          by_cases hidden : group.hidden = true
          · rw [if_pos hidden, isValid, hidden, Bool.true_or]
          · have settled : settle (place.join name) inner group = group.clearErrors := by
              rw [settle, failures_eq_nil_iff.mpr beneath]
              rfl
            have valid : areValid (validateAll (place.join name) inner) = true := ih _ inside beneath _
            simp only [hidden, Bool.false_eq_true, if_false, isValid, settled, valid]
            simp [Group.clearErrors]

section Unseen

variable {change : Field → Field} (unseen : Field.Unseen change) (onGroup : Group → Group)
include unseen

theorem operable_mapAll (path : Path) (members : List (String × Member)) :
    operable path (mapAll change onGroup members) =
      (operable path members).map fun entry => (entry.1, change entry.2) := by
  rw [operable, operable, fields_mapAll, List.filter_map]
  exact congrArg (List.map _) (List.filter_congr fun entry _ => unseen.isOperable entry.2)

/-- What a validation does not see fails as before. -/
theorem failures_mapAll (path : Path) (members : List (String × Member)) :
    failures path (mapAll change onGroup members) = failures path members := by
  rw [failures, failures, operable_mapAll unseen, List.filterMap_map]
  refine List.filterMap_congr fun entry inside => ?_
  have check := unseen.check entry.2 (List.mem_filter.mp inside).2
  simp [Field.isValid, check]

end Unseen

end Member

namespace Form

variable {form : Form}

@[simp]
theorem isClosedDialog_validate (path : Path) : (form.validate path).isClosedDialog = form.isClosedDialog := by
  unfold validate
  split
  · rfl
  · rfl

/-- If no field of a form fails, the form is valid once it is checked. -/
theorem isValid_validate {path : Path} (passed : form.failures path = []) (place : Path) :
    (form.validate place).isValid = true := by
  rw [validate]
  by_cases hidden : form.group.hidden = true
  · rw [if_pos hidden, isValid, hidden, Bool.true_or]
  · have none : Member.failures place form.members = [] :=
      Member.failures_eq_nil_iff.mpr (Member.failures_eq_nil_iff.mp passed)
    have settled : Member.settle place form.members form.group = form.group.clearErrors := by
      rw [Member.settle, none]
      rfl
    rw [if_neg hidden, isValid]
    dsimp only
    rw [settled, Member.areValid_validateAll passed place]
    simp [Group.clearErrors]

section Unseen

variable {change : Field → Field} (unseen : Field.Unseen change) (onGroup : Group → Group)
include unseen

theorem failures_map (path : Path) (form : Form) : (form.map change onGroup).failures path = form.failures path :=
  Member.failures_mapAll unseen onGroup path form.members

theorem failuresAt_map (path : Path) (names : List String) (form : Form) :
    (form.map change onGroup).failuresAt path names = form.failuresAt path names := by
  cases names with
  | nil => exact failures_map unseen onGroup path form
  | cons name rest =>
      have found : Member.find? name rest (form.map change onGroup).members =
          (Member.find? name rest form.members).map (Member.map change onGroup) := Member.find?_mapAll ..
      rw [failuresAt, failuresAt, found]
      cases Member.find? name rest form.members with
      | none => rfl
      | some member =>
          cases member with
          | field entry => rfl
          | fieldset group members => exact Member.failures_mapAll unseen onGroup path members

end Unseen

theorem failures_clearErrors (path : Path) (form : Form) : form.clearErrors.failures path = form.failures path :=
  failures_map Field.unseen_clearErrors Group.clearErrors path form

theorem collected_clearErrors (path : Path) (form : Form) : form.clearErrors.collected path = form.collected path := by
  rw [collected, collected]
  refine (congrArg (List.map _) (Member.operable_mapAll Field.unseen_clearErrors Group.clearErrors path
    form.members)).trans ?_
  rw [List.map_map]
  rfl

theorem wire_clearErrors (form : Form) : form.clearErrors.wire = form.wire := by
  have fields : form.clearErrors.fields .root = (form.fields .root).map fun entry => (entry.1, entry.2.clearErrors) :=
    Member.fields_mapAll ..
  rw [wire, wire, fields, List.filter_map, List.map_map]
  rfl

/-- A form that is checked a second time fails in the same fields. -/
@[simp]
theorem failures_validate (place path : Path) (form : Form) :
    (form.validate place).failures path = form.failures path := by
  rw [← failures_clearErrors, clearErrors_validate, failures_clearErrors]

/-- If nothing fails in a form, every field that takes part in validation passes its check. -/
theorem check_eq_nil {place : Path} (passed : form.failures place = []) {path : Path}
    {field : Field} (inside : (path, field) ∈ form.fields place) (operable : field.isOperable = true) :
    field.check = [] := by
  obtain ⟨names, -, stands⟩ := mem_fields_iff.mp inside
  exact List.isEmpty_iff.mp (Member.failures_eq_nil_iff.mp passed names field stands operable)

end Form

/-! ## Nodes -/

namespace Node

section Map

variable (liveOnly : Bool) (onForm : Path → Form → Form) (onFrame : Path → Frame → Frame)

/-- A change of everything changes the forms outside pristine siblings where they stand. -/
theorem liveForms_map (path : Path) (node : Node) :
    (node.map liveOnly onForm onFrame path).forms true path =
      (node.forms true path).map fun entry => (entry.1, onForm entry.1 entry.2) := by
  have members (place : Path) {entries : List (String × Node)}
      (ih : ∀ entry ∈ entries, ∀ path, (entry.2.map liveOnly onForm onFrame path).forms true path =
        (entry.2.forms true path).map fun entry => (entry.1, onForm entry.1 entry.2)) :
      ((mapMembers liveOnly onForm onFrame place entries).flatMap fun entry =>
          entry.2.forms true (place.join entry.1)) =
        (entries.flatMap fun entry => entry.2.forms true (place.join entry.1)).map fun entry =>
          (entry.1, onForm entry.1 entry.2) := by
    rw [mapMembers_eq, List.flatMap_map, List.map_flatMap]
    exact List.flatMap_congr fun entry inside => ih entry inside _
  induction node using Node.induction generalizing path with
  | form content => rfl
  | collection frame progress entries ih =>
      rw [map, liveForms_collection, liveForms_collection]
      exact members path ih
  | series frame template siblings _ ih =>
      rw [map, liveForms_series, liveForms_series, mapSiblings_eq, zipIdx_map_zipIdx, List.flatMap_map,
        List.map_flatMap]
      refine List.flatMap_congr fun entry inside => ?_
      dsimp only
      rw [Sibling.isPristine_mk, Sibling.members_mk]
      by_cases pristine : entry.1.isPristine = true
      · rw [if_pos pristine, if_pos pristine]
        rfl
      · have changed : (liveOnly && entry.1.isPristine) = false := by simp [pristine]
        rw [if_neg pristine, if_neg pristine, changed]
        exact members _ (ih entry.1 (List.fst_mem_of_mem_zipIdx inside))

end Map

/-- What a validation does not see fails as before. -/
theorem failures_mapForms {change : Field → Field} (unseen : Field.Unseen change) (onGroup : Group → Group)
    (path : Path) (node : Node) : (node.mapForms (Form.map change onGroup)).failures path = node.failures path := by
  rw [failures, failures, mapForms_eq _ path, liveForms_map, List.flatMap_map]
  refine List.flatMap_congr fun entry _ => ?_
  have sameDialog : (entry.2.map change onGroup).isClosedDialog = entry.2.isClosedDialog := rfl
  simp only [sameDialog, Form.failures_map unseen]

/-- Whether a node is valid can be told from its forms at any path. -/
theorem isValid_eq (path : Path) (node : Node) :
    node.isValid = (node.forms true path).all fun entry => entry.2.isClosedDialog || entry.2.isValid := by
  have shifted := forms_extend path .root true node
  rw [Path.extend_root] at shifted
  rw [isValid, shifted, Path.shift, List.all_map]
  rfl

theorem failures_eq_nil_iff {path : Path} {node : Node} : node.failures path = [] ↔
    ∀ entry ∈ node.forms true path, entry.2.isClosedDialog = false → entry.2.failures entry.1 = [] := by
  rw [failures, List.flatMap_eq_nil_iff]
  refine forall₂_congr fun entry _ => ?_
  cases closed : entry.2.isClosedDialog with
  | true => simp [closed]
  | false => simp [closed]

/-- A node that is checked a second time fails in the same fields. -/
theorem failures_validate (place path : Path) (node : Node) :
    (node.validate place).failures path = node.failures path := by
  rw [validate_path place path, failures, failures, validate, liveForms_map, List.flatMap_map]
  refine List.flatMap_congr fun entry _ => ?_
  by_cases closed : entry.2.isClosedDialog = true
  · simp only [closed, if_true]
  · simp only [if_neg closed, Form.isClosedDialog_validate, Form.failures_validate]

/-- If nothing fails at a node, it is valid once it is checked. -/
theorem isValid_validate {path : Path} {node : Node} (passed : node.failures path = []) (place : Path) :
    (node.validate place).isValid = true := by
  rw [failures_eq_nil_iff] at passed
  rw [validate_path place path, isValid_eq path, validate, liveForms_map, List.all_map, List.all_eq_true]
  intro entry inside
  rw [Function.comp_apply]
  by_cases closed : entry.2.isClosedDialog = true
  · rw [if_pos closed, closed, Bool.true_or]
  · have valid := Form.isValid_validate (passed entry inside (by simpa using closed)) entry.1
    rw [if_neg closed, valid, Bool.or_true]

end Node

end Formwork
