import Formwork.Proofs.Tree.Slots
import Formwork.Proofs.Tree.Validation

/-!
# The error slots after a refused submission

A submission stands behind a validation that has found nothing, and such a validation empties the slots that it
visits: a full one all but those of hidden groups, of closed dialogs and of pristine siblings, and the stray messages
as well; a partial one those of the form that is sent (`Tree.Visits`). While the tree waits for the outcome only
messages that are handed to it get into these slots (`Tree.Awaits.slots`).

So if nothing was handed over in the meantime, a refused submission leaves the messages of its own answer in each slot
that was visited, and no others (`Tree.Reachable.showsAnswer`). In a slot that no validation visits the messages
gather, once for each refusal (`Tree.answer_repeated`).
-/

set_option autoImplicit false

namespace Formwork

namespace Tree

variable {tree : Tree}

/-! ## Slots while a tree waits -/

variable (tree) in
/-- The validation in front of a submission visits the slot at a path, unless its group is hidden. -/
def Visits (pending : Pending) (path : Path) : Prop :=
  ¬ tree.InClosedDialog path ∧
    match pending.method with
    | .post => ¬ tree.Offered path
    | .patch => path.startsWith (tree.ownerOf pending.button) = true

theorem Alike.visits {first second : Tree} (alike : Alike first second) {pending : Pending} {path : Path}
    (visits : first.Visits pending path) : second.Visits pending path := by
  obtain ⟨outside, visited⟩ := visits
  refine ⟨fun closed => outside (alike.symm.inClosedDialog closed), ?_⟩
  cases method : pending.method with
  | post =>
      rw [method] at visited
      exact fun offered => visited (alike.symm.offered offered)
  | patch =>
      rw [method] at visited
      rwa [← alike.ownerOf]

/-- A request was sent and reported, and the tree has waited for its outcome since. In the meantime some messages were
handed to it. -/
inductive Awaits : Messages → Tree → Prop where
  | sent {tree : Tree} {operation : Operation} {cycle : Cycle} {pending : Pending} (reachable : tree.Reachable)
      (done : tree.answer operation = .ok cycle) (waits : cycle.tree.pending = some pending)
      (asks : cycle.Asks pending) : Awaits [] cycle.tree
  | handed {handed : Messages} {tree : Tree} (awaits : Awaits handed tree) (messages : Messages) :
      Awaits (handed ++ messages) (tree.after (.applyErrors messages))
  | other {handed : Messages} {tree : Tree} (awaits : Awaits handed tree) (operation : Operation)
      (undelivered : ∀ outcome, operation ≠ .complete outcome)
      (silent : ∀ messages, operation ≠ .applyErrors messages) : Awaits handed (tree.after operation)

/-- Every reachable tree that waits has done so since it has sent a request. -/
theorem Reachable.exists_awaits (reachable : tree.Reachable) {pending : Pending}
    (waits : tree.pending = some pending) : ∃ handed, Awaits handed tree := by
  induction reachable generalizing pending with
  | mounted mounted =>
      obtain ⟨here, built, -, rfl⟩ := mount_eq_ok mounted
      cases waits
  | @after tree earlier operation ih =>
      cases done : tree.answer operation with
      | error rejection =>
          rw [Tree.after, done] at waits ⊢
          exact ih waits
      | ok cycle =>
          have waitsThen := waits
          rw [after_of_ok done] at waitsThen
          rcases button_of_waits done waitsThen with ⟨same, undelivered⟩ | ⟨-, asks⟩
          · obtain ⟨handed, awaits⟩ := ih same
            by_cases silent : ∀ messages, operation ≠ .applyErrors messages
            · exact ⟨handed, .other awaits operation undelivered silent⟩
            · push Not at silent
              obtain ⟨messages, rfl⟩ := silent
              exact ⟨_, .handed awaits messages⟩
          · rw [after_of_ok done]
            exact ⟨[], .sent earlier done waitsThen asks⟩

/-- The slots that were visited hold no messages but some that were handed over, and after a full validation the stray
ones are some of these as well. -/
structure HoldsOnly (tree : Tree) (handed : Messages) (pending : Pending) : Prop where
  strays : pending.method = .post → tree.strayErrors.Sublist (tree.handedAstray handed)
  slots : ∀ path group, (path, group) ∈ tree.groups → group.hidden = false → tree.Visits pending path →
    group.errors.Sublist (tree.handedTo handed path)

section HoldsOnly

variable {handed : Messages} {pending : Pending}

/-- What adds no messages leaves no others in the slots. -/
theorem HoldsOnly.kept {after : Tree} (holds : tree.HoldsOnly handed pending) (alike : Alike after tree)
    (kept : Group.KeptFrom tree.groups after.groups) (strays : after.strayErrors.Sublist tree.strayErrors) :
    after.HoldsOnly handed pending where
  strays full := by
    rw [alike.handedAstray]
    exact strays.trans (holds.strays full)
  slots place group listed visible visits := by
    obtain ⟨before, there, same⟩ := kept _ listed
    rw [alike.handedTo]
    rcases same with same | same
    · obtain rfl : group = before := same
      exact holds.slots place group there visible (alike.visits visits)
    · obtain rfl : group = before.clearErrors := same
      exact List.nil_sublist _

/-- Messages that are handed over are counted in. -/
theorem HoldsOnly.applyErrors (holds : tree.HoldsOnly handed pending) (regular : tree.root.Regular)
    (messages : Messages) : (tree.applyErrors messages).HoldsOnly (handed ++ messages) pending := by
  have alike := (tree.applyErrors_notes messages).alike
  obtain ⟨strays, groups⟩ := applyErrors_slots regular messages
  constructor
  · intro full
    rw [strays, alike.handedAstray, handedAstray_append]
    exact (holds.strays full).append (.refl _)
  · intro path group listed visible visits
    rw [groups] at listed
    obtain ⟨⟨place, before⟩, there, same⟩ := List.mem_map.mp listed
    cases same
    rw [alike.handedTo, handedTo_append]
    exact (holds.slots place before there visible (alike.visits visits)).append (.refl _)

end HoldsOnly

/-! ### When a request is sent -/

/-- The groups of a form are those at its path and beneath it. -/
theorem Owns.mem_groups (regular : tree.root.Regular) {button place path : Path} {form : Form} {group : Group}
    (owns : tree.Owns button place form) (listed : (path, group) ∈ tree.groups)
    (beneath : path.startsWith place = true) : (path, group) ∈ form.groups place := by
  obtain ⟨⟨around, other⟩, isForm, inside⟩ := List.mem_flatMap.mp listed
  obtain ⟨front, rfl, stands⟩ := Node.mem_forms_iff.mp owns.listed
  obtain ⟨front', rfl, standsOther⟩ := Node.mem_forms_iff.mp isForm
  obtain ⟨⟨names⟩, rfl⟩ := Form.exists_of_mem_groups inside
  rw [Path.extend_append, Path.startsWith_extend, List.isPrefixOf_iff_prefix] at beneath
  obtain ⟨rest, fronts⟩ := beneath
  obtain ⟨rfl, -, rfl⟩ := Node.stands_form_unique regular stands standsOther fronts
  exact inside

/-- When a partial submission is sent, the form of its button is valid, unless it is that of a closed dialog. -/
theorem Reachable.exists_partSent (reachable : tree.Reachable) {operation : Operation} {cycle : Cycle}
    (done : tree.answer operation = .ok cycle) {data : Json} (sent : .submit ⟨.patch, data⟩ ∈ cycle.report.effects) :
    ∃ button place form, tree.runsFor operation = some button ∧ cycle.tree.Owns button place form ∧
      (form.isClosedDialog = false → form.isValid = true) := by
  rcases answer_submits done with quiet | ⟨button, runs, before, method, remaining, reject, moves, quiet, rfl⟩
  · cases quiet _ sent
  · have regular : before.tree.root.Regular := reachable.regular.follows moves.retains.toFollows
    have there : button ∈ before.tree.fieldPlaces := by
      rw [moves.fieldPlaces]
      exact mem_fieldPlaces_of_runsFor reachable.regular (fun _ => reachable.waits) done runs
    obtain ⟨place, form, owns⟩ := exists_owns there
    obtain ⟨valid, -, pending, same⟩ := Cycle.beginSubmission_patch quiet sent
    rw [owns.ownerOf_eq regular] at valid same
    have ownsChecked := owns.validatePart regular
    refine ⟨button, place, _, runs, ⟨?_, ownsChecked.holds⟩, fun isOpen => ?_⟩
    · rw [same]
      exact ownsChecked.listed
    rw [owns.report_validatePart regular, ValidationReport.isValid_ofFailures] at valid
    cases closed : form.isClosedDialog with
    | true =>
        rw [closed, if_pos rfl] at isOpen
        exact absurd (closed.symm.trans isOpen) (Ne.symm Bool.false_ne_true)
    | false =>
        rw [closed, if_neg Bool.false_ne_true] at valid
        exact Form.isValid_validate valid place

/-- When a request is sent the slots that were visited are empty. -/
theorem Reachable.holdsOnly_sent (reachable : tree.Reachable) {operation : Operation} {cycle : Cycle}
    {pending : Pending} (done : tree.answer operation = .ok cycle) (waits : cycle.tree.pending = some pending)
    (asks : cycle.Asks pending) : cycle.tree.HoldsOnly [] pending := by
  have after : cycle.tree.Reachable := after_of_ok done ▸ reachable.after operation
  obtain ⟨data, reported⟩ := asks
  cases method : pending.method with
  | post =>
      rw [method] at reported
      have vouched := answer_vouches done data reported
      refine ⟨fun _ => vouched.strayErrors ▸ List.nil_sublist _, fun path group listed visible visits => ?_⟩
      obtain ⟨outside, shown⟩ := visits
      rw [method] at shown
      rw [errors_eq_nil after.regular after.atRest vouched.isValid listed visible shown outside]
      exact List.nil_sublist _
  | patch =>
      refine ⟨fun full => absurd (method.symm.trans full) nofun, fun path group listed visible visits => ?_⟩
      obtain ⟨outside, beneath⟩ := visits
      rw [method] at reported beneath
      obtain ⟨button, place, form, runs, owns, valid⟩ := reachable.exists_partSent done reported
      have same : pending.button = button := by
        rcases button_of_waits done waits with ⟨earlier, undelivered⟩ | ⟨runsFor, -⟩
        · cases operation with
          | click path => exact absurd (click_eq_ok done).1 (by simp [isBusy, earlier])
          | complete outcome => exact absurd rfl (undelivered outcome)
          | _ => cases runs
        · exact Option.some.inj (runsFor.symm.trans runs)
      rw [same, owns.ownerOf_eq after.regular] at beneath
      have inside := owns.mem_groups after.regular listed beneath
      obtain ⟨names, rfl⟩ := Form.exists_of_mem_groups inside
      rw [inClosedDialog_iff after.regular owns.listed, Bool.not_eq_true] at outside
      have fresh := (atRest_iff.mp after.atRest).2.1 _ owns.listed
      rw [Form.errors_eq_nil fresh (valid outside) inside visible]
      exact List.nil_sublist _

/-- While a tree waits, the slots that were visited hold nothing but what was handed over in the meantime. -/
theorem Awaits.slots {handed : Messages} (awaits : Awaits handed tree) :
    tree.Reachable ∧ ∃ pending, tree.pending = some pending ∧ tree.HoldsOnly handed pending := by
  induction awaits with
  | @sent tree operation cycle pending reachable done waits asks =>
      exact ⟨after_of_ok done ▸ reachable.after operation, pending, waits, reachable.holdsOnly_sent done waits asks⟩
  | @handed handed tree awaits messages ih =>
      obtain ⟨reachable, pending, waits, holds⟩ := ih
      refine ⟨reachable.after _, pending, ?_, holds.applyErrors reachable.regular messages⟩
      exact (tree.pending_applyErrors messages).trans waits
  | @other handed tree awaits operation undelivered silent ih =>
      obtain ⟨reachable, pending, waits, holds⟩ := ih
      have busy : tree.isBusy = true := by rw [isBusy, waits, Option.isSome_some]
      obtain ⟨kept, strays⟩ := kept_after busy undelivered silent
      refine ⟨reachable.after _, pending, (pending_after busy undelivered).trans waits, ?_⟩
      exact holds.kept (after_notes busy undelivered).alike kept strays

/-! ## What a refused submission leaves -/

/-- What a tree shows after a submission was refused with some messages. -/
structure ShowsAnswer (tree : Tree) (pending : Pending) (messages : Messages) (after : Tree) : Prop where
  /-- The messages of the answer that are meant for a slot come behind those that it holds. -/
  groups : after.groups = tree.groups.map fun entry => (entry.1, entry.2.addErrors (tree.handedTo messages entry.1))
  strayErrors : after.strayErrors = tree.strayErrors ++ tree.handedAstray messages
  /-- The tree has waited since the request was sent, and nothing else has got into the slots that were visited then
  than what was handed over in the meantime. -/
  awaits : ∃ handed, Awaits handed tree
  holdsOnly : ∀ handed, Awaits handed tree → tree.HoldsOnly handed pending
  /-- If nothing was handed over, each of these slots shows what this answer says about it, and no more. -/
  latest : Awaits [] tree → ∀ path group, (path, group) ∈ after.groups → group.hidden = false →
    tree.Visits pending path → group.errors = tree.handedTo messages path
  /-- So do the stray messages if the whole tree was sent. -/
  latestStrays : Awaits [] tree → pending.method = .post → after.strayErrors = tree.handedAstray messages

/-- In every reachable tree that waits, without a reject chain, an answer of status 422 is shown behind what the slots
hold, and instead of what they held before in those that the validation of the submission has visited. -/
theorem Reachable.showsAnswer (reachable : tree.Reachable) {pending : Pending} (waits : tree.pending = some pending)
    (unsaved : pending.reject = []) {response : Response} (refused : response.status = 422) :
    ∃ cycle, tree.answer (.complete (.ok response)) = .ok cycle ∧
      tree.ShowsAnswer pending response.messages cycle.tree := by
  have unsuccessful : response.isSuccess = false := by simp [Response.isSuccess, refused]
  have isRefusal : response.isValidationFailure = true := by simp [Response.isValidationFailure, refused]
  have done : tree.complete (.ok response) = .ok ⟨tree.idle.applyErrors response.messages, refusal (.ok response)⟩ := by
    rw [complete_eq waits, unsaved, success?, unsuccessful, Tree.refused, isRefusal]
    rfl
  have regular : tree.idle.root.Regular := reachable.regular
  obtain ⟨strays, groups⟩ := applyErrors_slots regular response.messages
  have holdsOnly (handed : Messages) (awaits : Awaits handed tree) : tree.HoldsOnly handed pending := by
    obtain ⟨-, other, same, holds⟩ := awaits.slots
    cases waits.symm.trans same
    exact holds
  refine ⟨_, done, {
    groups := groups
    strayErrors := strays
    awaits := reachable.exists_awaits waits
    holdsOnly := holdsOnly
    latest := fun awaits path group listed visible visits => ?_
    latestStrays := fun awaits full => ?_ }⟩
  · rw [groups] at listed
    obtain ⟨⟨place, before⟩, there, same⟩ := List.mem_map.mp listed
    cases same
    have empty : before.errors = [] :=
      List.sublist_nil.mp ((holdsOnly [] awaits).slots place before there visible visits)
    rw [Group.addErrors, empty, List.nil_append]
    rfl
  · have empty : tree.strayErrors = [] := List.sublist_nil.mp ((holdsOnly [] awaits).strays full)
    refine strays.trans ?_
    rw [show tree.idle.strayErrors = tree.strayErrors from rfl, empty, List.nil_append]
    rfl

/-- A form that is saved, with a fieldset that is never shown. -/
def savings : Blueprint where
  namespaceText := none
  root := .form ⟨none, none, .absent⟩ none
    [("save", .field { FieldPlan.standard with widget := .button, action := some "submit" }),
      ("more", .fieldset ⟨none, none, { Conditions.absent with showWhile := some "false" }⟩ [])]
  distinct := by decide

/-- The form is saved and refused with some messages, and saved once more. -/
def savedAgain (start : Tree) (messages : Messages) : Tree :=
  start.run [.click ⟨["save"]⟩, .complete (.ok (.unprocessable messages)), .click ⟨["save"]⟩]

/-- A message about the whole form is shown once, although it was the answer to the first submission as well. -/
theorem showsAnswer_savings : ∃ (tree : Tree) (pending : Pending) (cycle : Cycle) (group : Group), tree.Reachable ∧
    tree.pending = some pending ∧ pending.reject = [] ∧
    tree.answer (.complete (.ok (.unprocessable [("__all__", ["Try later."])]))) = .ok cycle ∧
    tree.ShowsAnswer pending (Response.unprocessable [("__all__", ["Try later."])]).messages cycle.tree ∧
      cycle.tree.group? .root = some group ∧ group.errors = ["Try later."] := by
  have shown : ((Tree.mount savings none).toOption.bind fun start =>
      (savedAgain start [("__all__", ["Try later."])]).pending.bind fun pending =>
        ((savedAgain start [("__all__", ["Try later."])]).answer
          (.complete (.ok (.unprocessable [("__all__", ["Try later."])])))).toOption.bind fun cycle =>
            (cycle.tree.group? .root).map fun group => (pending.reject, group.errors)) =
      some ([], ["Try later."]) := by decide +kernel
  obtain ⟨start, mounted, shown⟩ := Option.bind_eq_some_iff.mp shown
  obtain ⟨pending, waits, shown⟩ := Option.bind_eq_some_iff.mp shown
  obtain ⟨cycle, answered, shown⟩ := Option.bind_eq_some_iff.mp shown
  obtain ⟨group, found, same⟩ := Option.map_eq_some_iff.mp shown
  obtain ⟨unsaved, errors⟩ := Prod.mk.inj same
  rw [toOption_eq_some] at mounted answered
  have reachable : (savedAgain start [("__all__", ["Try later."])]).Reachable := (Reachable.mounted mounted).run _
  obtain ⟨again, done, shows⟩ := Reachable.showsAnswer reachable waits unsaved
    (rfl : (Response.unprocessable [("__all__", ["Try later."])]).status = 422)
  cases answered.symm.trans done
  exact ⟨_, pending, cycle, group, reachable, waits, unsaved, answered, shows, found, errors⟩

/-- A message about the fieldset that is not shown is there twice after the second refusal. -/
theorem answer_repeated : ∃ (tree : Tree) (pending : Pending) (cycle : Cycle) (group : Group), tree.Reachable ∧
    tree.pending = some pending ∧ pending.reject = [] ∧
    tree.answer (.complete (.ok (.unprocessable [("more", ["Try later."])]))) = .ok cycle ∧
      tree.handedTo (Response.unprocessable [("more", ["Try later."])]).messages ⟨["more"]⟩ = ["Try later."] ∧
        cycle.tree.group? ⟨["more"]⟩ = some group ∧ group.errors = ["Try later.", "Try later."] := by
  have shown : ((Tree.mount savings none).toOption.bind fun start =>
      (savedAgain start [("more", ["Try later."])]).pending.bind fun pending =>
        ((savedAgain start [("more", ["Try later."])]).answer
          (.complete (.ok (.unprocessable [("more", ["Try later."])])))).toOption.bind fun cycle =>
            (cycle.tree.group? ⟨["more"]⟩).map fun group => (pending.reject, group.errors,
              (savedAgain start [("more", ["Try later."])]).handedTo
                (Response.unprocessable [("more", ["Try later."])]).messages ⟨["more"]⟩)) =
      some ([], ["Try later.", "Try later."], ["Try later."]) := by decide +kernel
  obtain ⟨start, mounted, shown⟩ := Option.bind_eq_some_iff.mp shown
  obtain ⟨pending, waits, shown⟩ := Option.bind_eq_some_iff.mp shown
  obtain ⟨cycle, answered, shown⟩ := Option.bind_eq_some_iff.mp shown
  obtain ⟨group, found, same⟩ := Option.map_eq_some_iff.mp shown
  obtain ⟨unsaved, same⟩ := Prod.mk.inj same
  obtain ⟨errors, handed⟩ := Prod.mk.inj same
  rw [toOption_eq_some] at mounted answered
  exact ⟨_, pending, cycle, group, (Reachable.mounted mounted).run _, waits, unsaved, answered, handed, found, errors⟩

end Tree

end Formwork
