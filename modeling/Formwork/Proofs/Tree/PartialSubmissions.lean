import Formwork.Proofs.Node.Renumbering
import Formwork.Proofs.Tree.FullSubmissions
import Formwork.Proofs.Tree.Namespace

/-!
# Partial submissions

A button may send the form that it belongs to instead of the whole tree. The form is validated first and sent only
if nothing has failed in it. Nothing happens behind the submission, so the form is left as it was checked, and the
data are those that it has then (`Tree.Reachable.sentPart`), whatever the calls in front of the submission have done.

The validation is that of any node, and so it passes over the form of a closed dialog. A button of a dialog that is
closed when its turn to submit comes sends the form unchecked (`Cycle.beginSubmission_patch_iff`), for instance
right after it has closed the dialog itself (`Tree.not_sentPart_checked`).
-/

set_option autoImplicit false

namespace Formwork

theorem Form.paths_validate (place path : Path) (form : Form) :
    ((form.validate place).fields path).map Prod.fst = (form.fields path).map Prod.fst := by
  have paths (form : Form) : (form.clearErrors.fields path).map Prod.fst = (form.fields path).map Prod.fst := by
    simp [clearErrors, map, fields, Member.fields_mapAll]
  rw [← paths, form.clearErrors_validate, paths]

namespace Tree

variable {tree : Tree} {cycle : Cycle} {operation : Operation}

/-! ## The button that waits -/

/-- An operation that runs calls, or is refused because the tree waits, adds and removes no field. -/
theorem fieldPlaces_of_answer (done : tree.answer operation = .ok cycle)
    (still : tree.isBusy = true ∨ (tree.runsFor operation).isSome = true) :
    cycle.tree.fieldPlaces = tree.fieldPlaces := by
  cases answer_course done with
  | moves moves => exact moves.fieldPlaces
  | addSibling =>
      rcases still with busy | runs
      · exact absurd (addSibling_eq_ok done).1 (by simp [busy])
      · cases runs
  | removeSibling =>
      rcases still with busy | runs
      · exact absurd (removeSibling_eq_ok done).1 (by simp [busy])
      · cases runs

/-- An operation runs calls for a field of the tree, if the tree waits for none but its fields. -/
theorem mem_fieldPlaces_of_runsFor (regular : tree.root.Regular)
    (waits : ∀ pending, tree.pending = some pending → pending.button ∈ tree.fieldPlaces)
    (done : tree.answer operation = .ok cycle) {button : Path} (runs : tree.runsFor operation = some button) :
    button ∈ tree.fieldPlaces := by
  cases operation with
  | click path =>
      cases runs
      obtain ⟨-, field, -, stands, -⟩ := click_eq_ok done
      exact List.mem_map.mpr ⟨_, (field?_eq_some_iff regular).mp stands, rfl⟩
  | complete outcome =>
      obtain ⟨pending, waited, rfl⟩ := Option.map_eq_some_iff.mp runs
      exact waits pending waited
  | _ => cases runs

/-- The button that a tree waits for is one of its fields. -/
theorem Reachable.waits (reachable : tree.Reachable) {pending : Pending} (waits : tree.pending = some pending) :
    pending.button ∈ tree.fieldPlaces := by
  induction reachable generalizing pending with
  | mounted mounted =>
      obtain ⟨here, built, -, rfl⟩ := mount_eq_ok mounted
      cases waits
  | @after tree earlier operation ih =>
      cases done : tree.answer operation with
      | error rejection =>
          rw [Tree.after, done] at waits ⊢
          exact ih waits
      | ok cycle =>
          rw [after_of_ok done] at waits ⊢
          rcases button_of_waits done waits with ⟨same, -⟩ | ⟨runs, -⟩
          · rw [fieldPlaces_of_answer done (.inl (Option.isSome_iff_exists.mpr ⟨_, same⟩))]
            exact ih same
          · rw [fieldPlaces_of_answer done (.inr (Option.isSome_iff_exists.mpr ⟨_, runs⟩))]
            exact mem_fieldPlaces_of_runsFor earlier.regular (fun _ => ih) done runs

/-! ## The form around a button -/

variable {button place : Path} {form : Form}

variable (tree button place form) in
/-- A form stands at a place of the tree and holds a field with the path of the button. -/
structure Owns : Prop where
  listed : (place, form) ∈ tree.forms
  holds : button ∈ (form.fields place).map Prod.fst

theorem exists_owns (there : button ∈ tree.fieldPlaces) : ∃ place form, tree.Owns button place form := by
  obtain ⟨⟨path, field⟩, listed, rfl⟩ := List.mem_map.mp there
  obtain ⟨⟨place, form⟩, isForm, inside⟩ := List.mem_flatMap.mp listed
  exact ⟨place, form, isForm, List.mem_map.mpr ⟨_, inside, rfl⟩⟩

namespace Owns

variable (regular : tree.root.Regular) (owns : tree.Owns button place form)
include regular owns

/-- The owner of a button is the form that holds it. -/
theorem ownerOf_eq : tree.ownerOf button = place := by
  obtain ⟨front, rfl, stands⟩ := Node.mem_forms_iff.mp owns.listed
  obtain ⟨⟨path, field⟩, inside, rfl⟩ := List.mem_map.mp owns.holds
  obtain ⟨names, rfl, -⟩ := Form.mem_fields_iff.mp inside
  have below : tree.below? ((tree.here.extend ⟨front⟩).extend ⟨names⟩) = some (front ++ names) :=
    below?_eq_some_iff.mpr (Path.extend_append ..)
  have found : tree.root.formAt? (front ++ names) = some (names, form) :=
    (Node.formAt?_eq_some_iff regular).mpr ⟨front, rfl, stands⟩
  rw [ownerOf, below, Option.bind_some, found]
  dsimp only
  have length : ((tree.here.extend ⟨front⟩).extend ⟨names⟩).size - names.length = (tree.here.extend ⟨front⟩).size := by
    rw [Path.size_extend]
    exact Nat.add_sub_cancel ..
  rw [length, Path.truncate_extend_of_le _ _ (Nat.le_refl _), Path.truncate_size]

theorem node?_eq : tree.node? place = some (.form form) := by
  obtain ⟨front, rfl, stands⟩ := Node.mem_forms_iff.mp owns.listed
  exact (node?_eq_some_iff regular).mpr (Node.mem_nodes_iff.mpr ⟨front, rfl, stands⟩)

/-- The validation of the form answers what fails in it, unless it is the form of a closed dialog. -/
theorem report_validatePart : (tree.validatePart place).2 =
    .ofFailures tree.here (if form.isClosedDialog then [] else form.failures place) := by
  rw [validatePart, owns.node?_eq regular]
  simp [Node.failures, Node.forms, Node.nodes, Node.form?]

/-- A form that is validated stays where it is; that of a closed dialog is not checked. -/
theorem validatePart :
    (tree.validatePart place).1.Owns button place (if form.isClosedDialog then form else form.validate place) := by
  have found := owns.node?_eq regular
  obtain ⟨front, rfl, stands⟩ := Node.mem_forms_iff.mp owns.listed
  have below : tree.below? (tree.here.extend ⟨front⟩) = some front := below?_eq_some_iff.mpr rfl
  rw [Tree.validatePart, found, change_of_below below]
  dsimp only
  have standsChecked := stands.modify_beneath regular (.here (Node.validate (tree.here.extend ⟨front⟩) (.form form)))
  rw [List.append_nil, Node.validate, Node.map] at standsChecked
  refine ⟨Node.mem_forms_iff.mpr ⟨front, rfl, standsChecked⟩, ?_⟩
  split
  · exact owns.holds
  · rw [Form.paths_validate]
    exact owns.holds

end Owns

/-! ## What has been checked -/

/-- The data were sent for the form that owns a button, and the form was checked, unless its dialog was closed. -/
structure SentPart (tree : Tree) (button place : Path) (form : Form) (data : Json) : Prop
    extends tree.Owns button place form where
  owner : tree.ownerOf button = place
  payload : data = tree.partialPayload place
  /-- Unless the form is that of a closed dialog, its visible and enabled data fields pass their checks. -/
  checked : form.isClosedDialog = false → ∀ path field, (path, field) ∈ form.fields place →
    field.hidden = false → field.disabled = false → field.isButton = false → field.check = []

/-- A validation of the form of a button that finds nothing leaves the form as it can be sent. -/
theorem Owns.sentPart_validatePart (regular : tree.root.Regular) (owns : tree.Owns button place form)
    (valid : (tree.validatePart place).2.isValid = true) (pending : Option Pending) :
    ∃ checked, { (tree.validatePart place).1 with pending }.SentPart button place checked
      ((tree.validatePart place).1.partialPayload place) := by
  have ownsChecked := owns.validatePart regular
  have owner : (tree.validatePart place).1.ownerOf button = place :=
    ownsChecked.ownerOf_eq (regular.follows (tree.validatePart_notes place).moves.retains.toFollows)
  rw [owns.report_validatePart regular, ValidationReport.isValid_ofFailures] at valid
  refine ⟨_, {
    listed := ownsChecked.listed
    holds := ownsChecked.holds
    owner := owner
    payload := rfl
    checked := fun isOpen path field inside visible enabled isData => ?_ }⟩
  cases closed : form.isClosedDialog with
  | true =>
      rw [closed, if_pos rfl] at isOpen
      exact absurd (closed.symm.trans isOpen) (Ne.symm Bool.false_ne_true)
  | false =>
      rw [closed, if_neg Bool.false_ne_true] at valid inside
      rw [← form.failures_validate place] at valid
      exact Form.check_eq_nil valid inside (by simp [Field.isOperable, visible, enabled, isData])

end Tree

namespace Cycle

variable {cycle : Cycle} {button place : Path} {form : Form} {method : Method} {remaining reject : List Call}
variable (regular : cycle.tree.root.Regular) (owns : cycle.tree.Owns button place form)
include regular owns

/-- A partial submission is sent if nothing fails in the form of its button, and in any case if this is the form
of a closed dialog. -/
theorem beginSubmission_patch_iff : (cycle.beginSubmission button .patch remaining reject).2 = .suspended ↔
    form.isClosedDialog = true ∨ form.failures place = [] := by
  have report := owns.report_validatePart regular
  unfold beginSubmission
  rw [owns.ownerOf_eq regular]
  dsimp only
  have valid : (cycle.tree.validatePart place).2.isValid = true ↔
      form.isClosedDialog = true ∨ form.failures place = [] := by
    rw [report, ValidationReport.isValid_ofFailures]
    split <;> simp_all
  rw [← valid]
  split
  · simp_all
  · simp_all

omit regular owns in
/-- A partial submission that is sent leaves the tree as the validation of the form of its button has left it. -/
theorem beginSubmission_patch (quiet : Quiet cycle.report.effects) {data : Json}
    (sent : .submit ⟨.patch, data⟩ ∈ (cycle.beginSubmission button method remaining reject).1.report.effects) :
    (cycle.tree.validatePart (cycle.tree.ownerOf button)).2.isValid = true ∧
      data = (cycle.tree.validatePart (cycle.tree.ownerOf button)).1.partialPayload (cycle.tree.ownerOf button) ∧
      ∃ pending, (cycle.beginSubmission button method remaining reject).1.tree =
        { (cycle.tree.validatePart (cycle.tree.ownerOf button)).1 with pending } := by
  unfold beginSubmission at sent ⊢
  cases method with
  | post =>
      dsimp only at sent
      split at sent
      · rcases List.mem_append.mp sent with earlier | last
        · cases quiet _ earlier
        · cases List.mem_singleton.mp last
      · cases quiet _ sent
  | patch =>
      dsimp only at sent ⊢
      split at sent
      · rename_i valid
        rcases List.mem_append.mp sent with earlier | last
        · cases quiet _ earlier
        · cases List.mem_singleton.mp last
          rw [if_pos valid]
          exact ⟨valid, rfl, _, rfl⟩
      · cases quiet _ sent

/-- The form of a partial submission is left as it was checked and sent. -/
theorem beginSubmission_sentPart (quiet : Quiet cycle.report.effects) {data : Json}
    (sent : .submit ⟨.patch, data⟩ ∈ (cycle.beginSubmission button method remaining reject).1.report.effects) :
    ∃ checked, (cycle.beginSubmission button method remaining reject).1.tree.SentPart button place checked data := by
  obtain ⟨valid, rfl, pending, same⟩ := beginSubmission_patch quiet sent
  rw [owns.ownerOf_eq regular] at valid same ⊢
  rw [same]
  exact owns.sentPart_validatePart regular valid pending

end Cycle

namespace Tree

variable {tree : Tree} {cycle : Cycle} {operation : Operation}

/-- When an operation reports a partial submission, the form of the button for which it ran calls is left as it was
checked and sent, and it was checked unless its dialog was closed. -/
theorem Reachable.sentPart (reachable : tree.Reachable) (done : tree.answer operation = .ok cycle) {data : Json}
    (sent : .submit ⟨.patch, data⟩ ∈ cycle.report.effects) :
    ∃ button place form, tree.runsFor operation = some button ∧ cycle.tree.SentPart button place form data := by
  rcases answer_submits done with quiet | ⟨button, runs, before, method, remaining, reject, moves, quiet, rfl⟩
  · cases quiet _ sent
  · have regular : before.tree.root.Regular := reachable.regular.follows moves.retains.toFollows
    have there : button ∈ before.tree.fieldPlaces := by
      rw [moves.fieldPlaces]
      exact mem_fieldPlaces_of_runsFor reachable.regular (fun _ => reachable.waits) done runs
    obtain ⟨place, form, owns⟩ := exists_owns there
    obtain ⟨checked, sentPart⟩ := Cycle.beginSubmission_sentPart regular owns quiet sent
    exact ⟨button, place, checked, runs, sentPart⟩

/-- A page with a dialog that asks who reports. The reporter can be kept, or sent while the dialog is closed. -/
def reporting : Blueprint where
  namespaceText := none
  root := .collection .plain
    [("page", .form ⟨none, none, .absent⟩ none
        [("add", .field { FieldPlan.standard with widget := .button, action := some "activate" })]),
      ("reporter", .form ⟨none, none, { Conditions.absent with
          openWhen := some "page.add:active"
          closeWhen := some "reporter.send:active" }⟩ none
        [("name", .field { FieldPlan.standard with required := true }),
          ("keep", .field { FieldPlan.standard with widget := .button, action := some "submitPartial" }),
          ("send", .field { FieldPlan.standard with
            widget := .button
            action := some "activate(\"close\") -> submitPartial" })])]
  distinct := by decide

/-- A reporter with a name is kept, and the dialog has been checked for it. -/
theorem sentPart_reporter : ∃ tree cycle data, Tree.mount reporting none = .ok tree ∧
    (tree.run [.click ⟨["page", "add"]⟩, .setValue ⟨["reporter", "name"]⟩ (.text "Ada")]).click
      ⟨["reporter", "keep"]⟩ = .ok cycle ∧ .submit ⟨.patch, data⟩ ∈ cycle.report.effects ∧
      ∃ button place form, some ⟨["reporter", "keep"]⟩ = some button ∧
        cycle.tree.SentPart button place form data := by
  have sends : ((Tree.mount reporting none).toOption.bind fun tree =>
      ((tree.run [.click ⟨["page", "add"]⟩, .setValue ⟨["reporter", "name"]⟩ (.text "Ada")]).click
        ⟨["reporter", "keep"]⟩).toOption.map fun cycle =>
          (cycle.report.effects.filterMap Effect.request?).map Request.method) = some [.patch] := by decide +kernel
  obtain ⟨tree, mounted, clicked⟩ := Option.bind_eq_some_iff.mp sends
  obtain ⟨cycle, done, methods⟩ := Option.map_eq_some_iff.mp clicked
  rw [toOption_eq_some] at mounted done
  obtain ⟨data, reported⟩ := exists_sent methods
  have reachable := (Reachable.mounted mounted).run
    [.click ⟨["page", "add"]⟩, .setValue ⟨["reporter", "name"]⟩ (.text "Ada")]
  have answered : (tree.run [.click ⟨["page", "add"]⟩, .setValue ⟨["reporter", "name"]⟩ (.text "Ada")]).answer
      (.click ⟨["reporter", "keep"]⟩) = .ok cycle := done
  exact ⟨tree, cycle, data, mounted, done, reported, reachable.sentPart answered reported⟩

/-- A reporter without a name is sent, since the dialog is closed before its form is checked. -/
theorem not_sentPart_checked : ∃ tree cycle field, Tree.mount reporting none = .ok tree ∧
    (tree.after (.click ⟨["page", "add"]⟩)).click ⟨["reporter", "send"]⟩ = .ok cycle ∧
      (∃ data, .submit ⟨.patch, data⟩ ∈ cycle.report.effects) ∧
        cycle.tree.ownerOf ⟨["reporter", "send"]⟩ = ⟨["reporter"]⟩ ∧
        cycle.tree.field? ⟨["reporter", "name"]⟩ = some field ∧ field.hidden = false ∧ field.disabled = false ∧
          field.isButton = false ∧ field.check = ["This field is required."] := by
  have sends : ((Tree.mount reporting none).toOption.bind fun tree =>
      ((tree.after (.click ⟨["page", "add"]⟩)).click ⟨["reporter", "send"]⟩).toOption.bind fun cycle =>
        (cycle.tree.field? ⟨["reporter", "name"]⟩).map fun field =>
          ((cycle.report.effects.filterMap Effect.request?).map Request.method,
            cycle.tree.ownerOf ⟨["reporter", "send"]⟩,
            (field.hidden, field.disabled, field.isButton), field.check)) =
      some ([.patch], ⟨["reporter"]⟩, (false, false, false), ["This field is required."]) := by decide +kernel
  obtain ⟨tree, mounted, clicked⟩ := Option.bind_eq_some_iff.mp sends
  obtain ⟨cycle, done, found⟩ := Option.bind_eq_some_iff.mp clicked
  obtain ⟨field, stands, same⟩ := Option.map_eq_some_iff.mp found
  rw [toOption_eq_some] at mounted done
  simp only [Prod.mk.injEq] at same
  obtain ⟨methods, owner, ⟨visible, enabled, isData⟩, messages⟩ := same
  exact ⟨tree, cycle, field, mounted, done, exists_sent methods, owner, stands, visible, enabled, isData, messages⟩

end Tree

end Formwork
