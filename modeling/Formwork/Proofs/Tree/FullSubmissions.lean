import Formwork.Proofs.Node.Validity
import Formwork.Proofs.Reports
import Formwork.Proofs.Tree.Payload
import Formwork.Proofs.Tree.Requests

/-!
# Full submissions are checked

One call only sends a request for the whole tree. It validates the whole tree first, and goes on only if nothing
has failed; then it makes the payload of the tree as the validation left it, and suspends the chain. So nothing
can change between the validation and the end of the operation, whatever the calls in front of it have stored,
disabled or induced, and whether the chain was begun by a click or resumed by the outcome of an earlier
request (`Tree.answer_vouches`).

In the tree that such an operation leaves every field that takes part in validation passes its check, no form
shows messages, no messages stand astray, and the payload is what was sent (`Tree.Reachable.vouched`).
-/

set_option autoImplicit false

namespace Formwork

/-! ## The tree at the moment of a full submission -/

namespace Tree

variable {tree : Tree}

/-- Nothing fails and no messages are shown in a tree, and the data are its payload. -/
structure Cleared (tree : Tree) (data : Json) : Prop where
  passed : tree.root.failures tree.here = []
  isValid : tree.isValid = true
  strayErrors : tree.strayErrors = []
  payload : data = tree.payload

/-- A validation of the whole tree that finds nothing clears the tree, whatever it waits for afterwards. -/
theorem validate_cleared (passed : tree.validate.2.isValid = true) (pending : Option Pending) :
    { tree.validate.1 with pending }.Cleared tree.validate.1.payload where
  passed := (Node.failures_validate tree.here tree.here tree.root).trans (ValidationReport.isValid_ofFailures.mp passed)
  isValid := Node.isValid_validate (ValidationReport.isValid_ofFailures.mp passed) tree.here
  strayErrors := if_pos passed
  payload := rfl

end Tree

namespace Cycle

/-- The tree is cleared for the data of every full submission that is reported. -/
def Vouches (cycle : Cycle) : Prop :=
  ∀ data, .submit ⟨.post, data⟩ ∈ cycle.report.effects → cycle.tree.Cleared data

variable {cycle : Cycle}

theorem Vouches.of_quiet (quiet : Quiet cycle.report.effects) : cycle.Vouches := by
  intro data sent
  cases quiet _ sent

theorem beginSubmission_vouches (quiet : Quiet cycle.report.effects) (button : Path) (method : Method)
    (remaining reject : List Call) :
    (cycle.beginSubmission button method remaining reject).1.Vouches := by
  unfold beginSubmission
  cases method with
  | post =>
      dsimp only
      split
      · rename_i passed
        intro data sent
        rcases List.mem_append.mp sent with earlier | last
        · cases quiet _ earlier
        · cases List.mem_singleton.mp last
          exact Tree.validate_cleared passed _
      · exact .of_quiet quiet
  | patch =>
      dsimp only
      split
      · intro data sent
        rcases List.mem_append.mp sent with earlier | last
        · cases quiet _ earlier
        · cases List.mem_singleton.mp last
      · exact .of_quiet quiet

end Cycle

namespace Tree

variable {tree : Tree} {cycle : Cycle}

/-- Whatever is done to a tree, the answer vouches for the full submission that it reports. -/
theorem answer_vouches {operation : Operation} (done : tree.answer operation = .ok cycle) : cycle.Vouches := by
  rcases answer_submits done with quiet | ⟨button, -, before, method, remaining, reject, -, quiet, rfl⟩
  · exact .of_quiet quiet
  · exact Cycle.beginSubmission_vouches quiet button method remaining reject

/-! ## What has been checked -/

variable (tree) in
/-- A path leads into the form of a dialog that is closed. -/
def InClosedDialog (path : Path) : Prop :=
  ∃ place content names, (place, content) ∈ tree.forms ∧ content.isClosedDialog = true ∧ path = place.extend names

/-- A field that is sent and does not stand in a closed dialog stands in a form that takes part in validation. -/
theorem exists_validated_form (regular : tree.root.Regular) {path : Path} {field : Field}
    (listed : (path, field) ∈ tree.fields) (isData : field.isButton = false) (enabled : field.disabled = false)
    (live : ¬ tree.Offered path) (shown : ¬ tree.InClosedDialog path) :
    ∃ entry ∈ tree.root.forms true tree.here, entry.2.isClosedDialog = false ∧
      (path, field) ∈ entry.2.fields entry.1 := by
  have isSent : (path, field) ∈ tree.sent := (mem_sent_iff regular).mpr ⟨listed, isData, enabled, live⟩
  obtain ⟨⟨place, content⟩, liveForm, inside⟩ := List.mem_flatMap.mp isSent
  have inForm := List.mem_of_mem_filter inside
  obtain ⟨names, rfl, -⟩ := Form.mem_fields_iff.mp inForm
  have form : (place, content) ∈ tree.forms :=
    ((Node.liveNodes_sublist tree.here tree.root).filterMap _).subset liveForm
  refine ⟨(place, content), liveForm, ?_, inForm⟩
  by_contra closed
  exact shown ⟨place, content, ⟨names⟩, form, by simpa using closed, rfl⟩

/-- If nothing fails in a tree, every field that takes part in validation passes its check. -/
theorem check_eq_nil (regular : tree.root.Regular) (passed : tree.root.failures tree.here = []) {path : Path}
    {field : Field} (listed : (path, field) ∈ tree.fields) (operable : field.isOperable = true)
    (live : ¬ tree.Offered path) (shown : ¬ tree.InClosedDialog path) : field.check = [] := by
  have parts := operable
  simp only [Field.isOperable, Bool.and_eq_true, Bool.not_eq_true'] at parts
  obtain ⟨⟨-, enabled⟩, isData⟩ := parts
  obtain ⟨entry, liveForm, isOpen, inside⟩ := exists_validated_form regular listed isData enabled live shown
  exact Form.check_eq_nil (Node.failures_eq_nil_iff.mp passed entry liveForm isOpen) inside operable

/-- The data were sent for the whole tree, and everything that takes part in validation was checked. -/
structure Vouched (tree : Tree) (data : Json) : Prop where
  /-- Every visible and enabled data field passes its check, apart from those of pristine siblings and closed
  dialogs. -/
  checked : ∀ path field, (path, field) ∈ tree.fields → field.hidden = false → field.disabled = false →
    field.isButton = false → ¬ tree.Offered path → ¬ tree.InClosedDialog path → field.check = []
  isValid : tree.isValid = true
  strayErrors : tree.strayErrors = []
  payload : data = tree.payload

/-- When an operation reports a full submission, the tree is left as it was checked and sent. -/
theorem Reachable.vouched (reachable : tree.Reachable) {operation : Operation}
    (done : tree.answer operation = .ok cycle) {data : Json}
    (sent : .submit ⟨.post, data⟩ ∈ cycle.report.effects) : cycle.tree.Vouched data := by
  obtain ⟨passed, isValid, strayErrors, payload⟩ := answer_vouches done data sent
  have after := after_of_ok done
  have regular : cycle.tree.root.Regular := after ▸ (reachable.after operation).regular
  refine ⟨fun path field listed visible enabled isData live shown => ?_, isValid, strayErrors, payload⟩
  have operable : field.isOperable = true := by simp [Field.isOperable, visible, enabled, isData]
  exact check_eq_nil regular passed listed operable live shown

/-- A booking that needs a name and is marked before it is sent. Cancelling it needs a reason, for which a dialog
asks, and a guest who is added needs a name as well. -/
def booking : Blueprint where
  namespaceText := none
  root := .collection .plain
    [("booking", .form ⟨none, none, .absent⟩ none
        [("name", .field { FieldPlan.standard with required := true }),
          ("status", .field .standard),
          ("cancel", .field { FieldPlan.standard with widget := .button, action := some "activate" }),
          ("send", .field { FieldPlan.standard with
            widget := .button
            action := some "setFieldValue(status, \"sent\") -> submit -> reset" })]),
      ("cancelling", .form ⟨none, none, { Conditions.absent with openWhen := some "booking.cancel:active" }⟩ none
        [("reason", .field { FieldPlan.standard with required := true })]),
      ("guests", .collection { CollectionPlan.plain with extraSiblings := some 1 }
        [("guest", .form ⟨none, none, .absent⟩ none
          [("name", .field { FieldPlan.standard with required := true })])])]
  distinct := by decide

/-- With a name the booking is sent, although nothing was entered for cancelling it and for a guest. -/
theorem vouched_booking : ∃ tree cycle data, Tree.mount booking none = .ok tree ∧
    (tree.after (.setValue ⟨["booking", "name"]⟩ (.text "Ada"))).click ⟨["booking", "send"]⟩ = .ok cycle ∧
      .submit ⟨.post, data⟩ ∈ cycle.report.effects ∧ cycle.tree.Vouched data := by
  have sends : ((Tree.mount booking none).toOption.bind fun tree =>
      ((tree.after (.setValue ⟨["booking", "name"]⟩ (.text "Ada"))).click ⟨["booking", "send"]⟩).toOption.map
        fun cycle => (cycle.report.effects.filterMap Effect.request?).map Request.method) =
      some [.post] := by decide +kernel
  obtain ⟨tree, mounted, clicked⟩ := Option.bind_eq_some_iff.mp sends
  obtain ⟨cycle, done, methods⟩ := Option.map_eq_some_iff.mp clicked
  rw [toOption_eq_some] at mounted done
  obtain ⟨data, reported⟩ := exists_sent methods
  have reachable : (tree.after (.setValue ⟨["booking", "name"]⟩ (.text "Ada"))).Reachable :=
    .after (.mounted mounted) _
  have answered : (tree.after (.setValue ⟨["booking", "name"]⟩ (.text "Ada"))).answer
      (.click ⟨["booking", "send"]⟩) = .ok cycle := done
  exact ⟨tree, cycle, data, mounted, done, reported, reachable.vouched answered reported⟩

end Tree

end Formwork
