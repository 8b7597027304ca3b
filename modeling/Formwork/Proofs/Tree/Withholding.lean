import Formwork.Proofs.Node.Veil
import Formwork.Proofs.Tree.Unseen

/-!
# Withheld values stay inside

Two trees that differ at most in the values of hidden and disabled fields, each of the same kind in both, are
the same once they are veiled. No payload, no collected data, no answer about validity and no report of a
validation can tell such trees apart (`Tree.discreet`), since all of these are the same for the veiled tree
(`Tree.answersAlike_veil`).

A withheld value may really be any other one of its kind: to exchange it does not change the veiled tree
(`Tree.veil_exchange`).
-/

set_option autoImplicit false

namespace Formwork.Tree

/-- The tree with blank values of the same kinds in place of withheld ones. -/
def veil (tree : Tree) : Tree := { tree with root := tree.root.veil }

/-- The tree with a value in the field at a path, if the field withholds a value of the same kind. -/
def exchange (path : Path) (value : Value) (tree : Tree) : Tree :=
  tree.change path (Node.modifyField (Field.exchange value))

/-- Two trees give the same answers about their data. -/
structure AnswersAlike (first second : Tree) : Prop where
  payload : first.payload = second.payload
  partialPayload : ∀ scope, first.partialPayload scope = second.partialPayload scope
  collected : first.collected = second.collected
  siblingData : ∀ path, first.siblingData path = second.siblingData path
  isValid : first.isValid = second.isValid
  validation : first.validate.2 = second.validate.2
  partialValidation : ∀ scope, (first.validatePart scope).2 = (second.validatePart scope).2

namespace AnswersAlike

variable {first second third : Tree}

theorem symm (alike : AnswersAlike first second) : AnswersAlike second first where
  payload := alike.payload.symm
  partialPayload scope := (alike.partialPayload scope).symm
  collected := alike.collected.symm
  siblingData path := (alike.siblingData path).symm
  isValid := alike.isValid.symm
  validation := alike.validation.symm
  partialValidation scope := (alike.partialValidation scope).symm

theorem trans (alike : AnswersAlike first second) (further : AnswersAlike second third) :
    AnswersAlike first third where
  payload := alike.payload.trans further.payload
  partialPayload scope := (alike.partialPayload scope).trans (further.partialPayload scope)
  collected := alike.collected.trans further.collected
  siblingData path := (alike.siblingData path).trans (further.siblingData path)
  isValid := alike.isValid.trans further.isValid
  validation := alike.validation.trans further.validation
  partialValidation scope := (alike.partialValidation scope).trans (further.partialValidation scope)

end AnswersAlike

variable (tree : Tree)

/-! ## The veiled tree -/

theorem node?_veil (path : Path) : tree.veil.node? path = (tree.node? path).map Node.veil := by
  have below : tree.veil.below? path = tree.below? path := rfl
  rw [node?, node?, below]
  cases tree.below? path with
  | none => rfl
  | some segments => exact Node.get?_mapForms Form.veil segments tree.root

theorem partialPayload_veil (scope : Path) : tree.veil.partialPayload scope = tree.partialPayload scope := by
  have below : tree.veil.below? scope = tree.below? scope := rfl
  rw [partialPayload, partialPayload, below, node?_veil]
  cases tree.node? scope with
  | none => rfl
  | some node => exact congrArg (InitialData.nest _) node.wire_veil

theorem siblingData_veil (path : Path) : tree.veil.siblingData path = tree.siblingData path := by
  rw [siblingData, siblingData, node?_veil]
  cases tree.node? path with
  | none => rfl
  | some node => exact node.siblingData_veil path

theorem changedUnseen_veil : ChangedUnseen tree tree.veil := ⟨rfl, Field.veil, id, Field.unseen_veil, rfl⟩

/-- A tree tells nothing that its veiled tree does not tell. -/
theorem answersAlike_veil : AnswersAlike tree.veil tree where
  payload := tree.root.wire_veil
  partialPayload := tree.partialPayload_veil
  collected := tree.root.collected_veil tree.here
  siblingData := tree.siblingData_veil
  isValid := tree.root.isValid_veil
  validation := tree.changedUnseen_veil.report_validate
  partialValidation := tree.changedUnseen_veil.report_validatePart

/-- To exchange a withheld value for one of its kind does not change the veiled tree. -/
theorem veil_exchange (path : Path) (value : Value) : (tree.exchange path value).veil = tree.veil := by
  rw [exchange, change]
  cases tree.below? path with
  | none => rfl
  | some segments =>
      refine congrArg (fun root : Node => { tree with root := root }) ?_
      refine Node.mapForms_along Form.veil (fun names node => ?_) segments tree.root
      cases node with
      | form content => exact congrArg Node.form (content.map_modifyField (Field.veil_exchange value) names)
      | collection frame progress members => rfl
      | series frame template siblings => rfl

/-- Trees that differ at most in withheld values, each of the same kind in both, cannot be told apart by what they
send, collect and report. -/
theorem discreet {first second : Tree} (same : first.veil = second.veil) : AnswersAlike first second := by
  have left : AnswersAlike first first.veil := first.answersAlike_veil.symm
  have right : AnswersAlike first.veil second := same ▸ second.answersAlike_veil
  exact left.trans right

/-- A sign-up whose voucher is shown to members only, and whose discount only members can change. -/
def signUp : Blueprint where
  namespaceText := none
  root := .form ⟨none, none, .absent⟩ none
    [("member", .field .standard),
      ("voucher", .field { FieldPlan.standard with showWhile := some "member" }),
      ("discount", .field { FieldPlan.standard with disableWhile := some "!member" })]
  distinct := by decide

/-- What is filled in as a member, who then leaves. -/
def leaving : List Operation :=
  [.setValue ⟨["member"]⟩ (.text "yes"), .setValue ⟨["voucher"]⟩ (.text "A17"),
    .setValue ⟨["discount"]⟩ (.text "5"), .setValue ⟨["member"]⟩ (.text "")]

/-- What a former member had entered as a voucher and as a discount cannot be told from other entries. -/
theorem discreet_signUp : ∃ first second : Tree, first.Reachable ∧
    first.fields.map (fun entry => entry.2.value) = [.text "", .text "A17", .text "5"] ∧
      second.fields.map (fun entry => entry.2.value) = [.text "", .text "B42", .text "10"] ∧
        first.veil = second.veil ∧ AnswersAlike first second := by
  let others (first : Tree) := (first.exchange ⟨["voucher"]⟩ (.text "B42")).exchange ⟨["discount"]⟩ (.text "10")
  have values : ((Tree.mount signUp none).toOption.map fun tree =>
      ((tree.run leaving).fields.map fun entry => entry.2.value,
        (others (tree.run leaving)).fields.map fun entry => entry.2.value)) =
      some ([.text "", .text "A17", .text "5"], [.text "", .text "B42", .text "10"]) := by decide +kernel
  obtain ⟨tree, mounted, listed⟩ := Option.map_eq_some_iff.mp values
  rw [toOption_eq_some] at mounted
  obtain ⟨entered, exchanged⟩ := Prod.mk.inj listed
  have same : (tree.run leaving).veil = (others (tree.run leaving)).veil := by rw [veil_exchange, veil_exchange]
  exact ⟨tree.run leaving, others (tree.run leaving), (Reachable.mounted mounted).run leaving, entered, exchanged,
    same, discreet same⟩

end Formwork.Tree
