import Formwork.Proofs.Node.Validity
import Formwork.Proofs.Tree.Pending
import Formwork.Proofs.Tree.Remembering

/-!
# What a validation does not see

A validation asks the operable fields for the outcome of their checks and sees nothing else of them. A change that
keeps both is not seen by a validation of the whole tree or a part of it, and so neither by a submission nor by a
step of a stepper, which ask for nothing but the outcome of a validation (`Tree.ChangedUnseen.decidesAlike`). Messages
are never seen: those that a server sends do not stand in the way of what is tried next
(`Tree.decidesAlike_applyErrors`).
-/

set_option autoImplicit false

namespace Formwork

/-- A stepper whose fields changed unseen goes where it went before, and is kept by the same failures. -/
theorem Node.goTo_mapForms {change : Field → Field} (unseen : Field.Unseen change) (onGroup : Group → Group)
    (path : Path) (index : Nat) (node : Node) :
    ((node.mapForms (Form.map change onGroup)).goTo path index).map Prod.snd =
      (node.goTo path index).map Prod.snd := by
  have steps (first last : Nat) (members : List (String × Node)) :
      stepFailures path first last (members.map fun entry => (entry.1, entry.2.mapForms (Form.map change onGroup))) =
        stepFailures path first last members := by
    rw [stepFailures, stepFailures, ← List.map_take, ← List.map_drop, List.flatMap_map]
    exact List.flatMap_congr fun entry _ => failures_mapForms unseen onGroup _ entry.2
  cases node with
  | form content => rfl
  | series frame template siblings =>
      rw [mapForms_series]
      rfl
  | collection frame progress members =>
      rw [mapForms_collection]
      cases progress with
      | none => rfl
      | some progress =>
          rw [goTo, goTo, steps]
          dsimp only
          split
          · rfl
          · split
            · rfl
            · split
              · rfl
              · split
                · rfl
                · rfl

namespace Tree

/-! ## Trees that decide alike -/

/-- Two trees answer alike what is wrong with them, and so decide alike what may be sent and which step may be
reached. -/
structure DecidesAlike (first second : Tree) : Prop where
  validation : first.validate.2 = second.validate.2
  partialValidation : ∀ scope, (first.validatePart scope).2 = (second.validatePart scope).2
  /-- A submission that is begun ends alike: it is sent, or it fails. -/
  submission : ∀ report button method remaining reject,
    (Cycle.beginSubmission button method remaining reject ⟨first, report⟩).2 =
      (Cycle.beginSubmission button method remaining reject ⟨second, report⟩).2
  /-- A step is refused, reached or kept from being reached alike, with the same report. -/
  step : ∀ report path index,
    (Cycle.navigate path index ⟨first, report⟩).map (fun navigated => (navigated.1.report, navigated.2)) =
      (Cycle.navigate path index ⟨second, report⟩).map fun navigated => (navigated.1.report, navigated.2)

namespace DecidesAlike

variable {first second third : Tree}

theorem symm (alike : DecidesAlike first second) : DecidesAlike second first where
  validation := alike.validation.symm
  partialValidation scope := (alike.partialValidation scope).symm
  submission report button method remaining reject := (alike.submission report button method remaining reject).symm
  step report path index := (alike.step report path index).symm

theorem trans (alike : DecidesAlike first second) (further : DecidesAlike second third) : DecidesAlike first third where
  validation := alike.validation.trans further.validation
  partialValidation scope := (alike.partialValidation scope).trans (further.partialValidation scope)
  submission report button method remaining reject :=
    (alike.submission report button method remaining reject).trans
      (further.submission report button method remaining reject)
  step report path index := (alike.step report path index).trans (further.step report path index)

end DecidesAlike

/-- The forms of a tree were changed in a way that a validation does not see. -/
structure ChangedUnseen (tree changed : Tree) : Prop where
  namespaceText : changed.namespaceText = tree.namespaceText
  root : ∃ change onGroup, Field.Unseen change ∧ changed.root = tree.root.mapForms (Form.map change onGroup)

namespace ChangedUnseen

variable {tree changed : Tree} (unseen : ChangedUnseen tree changed)
include unseen

theorem here : changed.here = tree.here := by rw [Tree.here, Tree.here, unseen.namespaceText]

theorem below? (path : Path) : changed.below? path = tree.below? path := by rw [Tree.below?, Tree.below?, unseen.here]

theorem report_validate : changed.validate.2 = tree.validate.2 := by
  obtain ⟨change, onGroup, blind, root⟩ := unseen.root
  rw [Tree.validate, Tree.validate, unseen.here, root]
  exact congrArg (ValidationReport.ofFailures tree.here) (Node.failures_mapForms blind onGroup tree.here tree.root)

/-- The node at a path fails as before, and goes to a step as before. -/
theorem node? (path : Path) : ∃ change onGroup, Field.Unseen change ∧
    changed.node? path = (tree.node? path).map (Node.mapForms (Form.map change onGroup)) := by
  obtain ⟨change, onGroup, blind, root⟩ := unseen.root
  refine ⟨change, onGroup, blind, ?_⟩
  rw [Tree.node?, Tree.node?, unseen.below?, root]
  cases tree.below? path with
  | none => rfl
  | some segments => exact Node.get?_mapForms _ segments tree.root

/-- The form on the way to a path is found as before, with the fields changed. -/
theorem formAt? (segments : List String) : ∃ change onGroup, Field.Unseen change ∧
    changed.root.formAt? segments =
      (tree.root.formAt? segments).map fun entry => (entry.1, entry.2.map change onGroup) := by
  obtain ⟨change, onGroup, blind, root⟩ := unseen.root
  exact ⟨change, onGroup, blind, root ▸ Node.formAt?_mapForms _ segments tree.root⟩

/-- The report tells the failures of the node at a path, or else those of the fieldset there. -/
theorem report_validatePart (scope : Path) : (changed.validatePart scope).2 = (tree.validatePart scope).2 := by
  obtain ⟨change, onGroup, blind, found⟩ := unseen.node? scope
  rw [Tree.validatePart, Tree.validatePart, found, unseen.here]
  cases tree.node? scope with
  | some node =>
      exact congrArg (ValidationReport.ofFailures tree.here) (Node.failures_mapForms blind onGroup scope node)
  | none =>
      refine congrArg (ValidationReport.ofFailures tree.here) ?_
      rw [unseen.below?]
      cases tree.below? scope with
      | none => rfl
      | some segments =>
          obtain ⟨change, onGroup, blind, found⟩ := unseen.formAt? segments
          rw [Option.bind_some, Option.bind_some, found]
          cases tree.root.formAt? segments with
          | none => rfl
          | some entry => exact Form.failuresAt_map blind onGroup scope entry.1 entry.2

theorem ownerOf (button : Path) : changed.ownerOf button = tree.ownerOf button := by
  rw [Tree.ownerOf, Tree.ownerOf, unseen.below?, unseen.here]
  cases tree.below? button with
  | none => rfl
  | some segments =>
      obtain ⟨change, onGroup, -, found⟩ := unseen.formAt? segments
      rw [Option.bind_some, Option.bind_some, found]
      cases tree.root.formAt? segments with
      | none => rfl
      | some entry => rfl

theorem ending_beginSubmission (report : Report) (button : Path) (method : Method) (remaining reject : List Call) :
    (Cycle.beginSubmission button method remaining reject ⟨changed, report⟩).2 =
      (Cycle.beginSubmission button method remaining reject ⟨tree, report⟩).2 := by
  have whole := unseen.report_validate
  have part := unseen.report_validatePart (tree.ownerOf button)
  unfold Cycle.beginSubmission
  dsimp only
  rw [unseen.ownerOf]
  cases method with
  | post =>
      dsimp only
      rw [whole]
      split <;> rfl
  | patch =>
      dsimp only
      rw [part]
      split <;> rfl

theorem navigate (report : Report) (path : Path) (index : Nat) :
    (Cycle.navigate path index ⟨changed, report⟩).map (fun navigated => (navigated.1.report, navigated.2)) =
      (Cycle.navigate path index ⟨tree, report⟩).map fun navigated => (navigated.1.report, navigated.2) := by
  obtain ⟨change, onGroup, blind, found⟩ := unseen.node? path
  unfold Cycle.navigate
  dsimp only
  rw [found]
  cases tree.node? path with
  | none => rfl
  | some node =>
      have same := Node.goTo_mapForms blind onGroup path index node
      dsimp only [Option.map_some]
      generalize (node.mapForms (Form.map change onGroup)).goTo path index = gone at same ⊢
      generalize node.goTo path index = went at same ⊢
      match gone, went with
      | .error _, .error _ =>
          cases same
          rfl
      | .ok (moved, failures), .ok (reached, others) =>
          obtain rfl : failures = others := Except.ok.inj same
          simp only [bind, Except.bind, here_change, unseen.here]
          cases failures.isEmpty with
          | true => rfl
          | false => rfl

theorem decidesAlike : DecidesAlike changed tree where
  validation := unseen.report_validate
  partialValidation := unseen.report_validatePart
  submission := unseen.ending_beginSubmission
  step := unseen.navigate

end ChangedUnseen

variable (tree : Tree)

/-! ## Messages are never seen -/

theorem clearErrors_change (place : Path) {edit : List String → Node → Node}
    (keeps : ∀ segments node, (edit segments node).clearErrors = node.clearErrors) :
    (tree.change place edit).clearErrors = tree.clearErrors := by
  unfold change
  split
  · exact congrArg (fun root => ({ tree with root, strayErrors := [] } : Tree)) (keeps _ _)
  · rfl

theorem clearErrors_applyMessages (key : String) (messages : List String) :
    (tree.applyMessages key messages).clearErrors = tree.clearErrors := by
  rw [applyMessages_eq]
  split
  · exact tree.clearErrors_change _ (Node.clearErrors_modifyForm fun names content =>
      content.clearErrors_modifyField (Field.clearErrors_setErrors messages) names)
  · split
    · exact tree.clearErrors_change _ (Node.clearErrors_modifyForm fun names content =>
        content.clearErrors_modifyGroup (Group.clearErrors_addErrors messages) names)
    · rfl

/-- Messages of a server are all that they leave behind. -/
theorem clearErrors_applyErrors (messages : Messages) : (tree.applyErrors messages).clearErrors = tree.clearErrors := by
  induction messages generalizing tree with
  | nil => rfl
  | cons entry rest ih => exact (ih _).trans (tree.clearErrors_applyMessages entry.1 entry.2)

theorem changedUnseen_clearErrors : ChangedUnseen tree tree.clearErrors :=
  ⟨rfl, Field.clearErrors, Group.clearErrors, Field.unseen_clearErrors, rfl⟩

/-- Messages of a server do not stand in the way of a validation, a submission or a step. -/
theorem decidesAlike_applyErrors (messages : Messages) : DecidesAlike (tree.applyErrors messages) tree := by
  have first := (tree.applyErrors messages).changedUnseen_clearErrors.decidesAlike
  rw [clearErrors_applyErrors] at first
  exact first.symm.trans tree.changedUnseen_clearErrors.decidesAlike

end Tree

end Formwork
