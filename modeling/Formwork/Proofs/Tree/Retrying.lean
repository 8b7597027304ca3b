import Formwork.Proofs.Tree.PartialSubmissions
import Formwork.Proofs.Tree.Withholding

/-!
# Failed deliveries

A delivery that fails ends the wait and is reported. As long as no reject chain was saved nothing else happens
(`Tree.complete_of_fails`), so nothing that was entered is lost.

A submission leaves messages behind and nothing that is sent, and no message stands in the way of another
submission. So trees that differ in messages only begin a submission alike (`Tree.Alike.decidesAlike`), with the same
request (`Tree.Alike.outgoing`). What is done to a tree that waits leaves messages only, too (`Tree.after_notes`).
Hence the button whose first call has sent the request that failed can be clicked again, and sends the same request
once more (`Tree.resends`).
-/

set_option autoImplicit false

namespace Formwork

/-- There is no response, or its status means neither a success nor messages about the data. -/
def Outcome.Fails : Outcome → Prop
  | .error _ => True
  | .ok response => ¬(200 ≤ response.status ∧ response.status < 300) ∧ response.status ≠ 422

/-- What is reported of a delivery that fails. -/
def Outcome.complaint : Outcome → String
  | .error failure => failure.message
  | .ok response => "unexpected response status " ++ Text.indexText response.status

theorem Form.find?_clearErrors (name : String) (rest : List String) (form : Form) :
    Member.find? name rest form.clearErrors.members =
      (Member.find? name rest form.members).map (Member.map Field.clearErrors Group.clearErrors) :=
  Member.find?_mapAll ..

theorem Form.field?_clearErrors (names : List String) (form : Form) :
    form.clearErrors.field? names = (form.field? names).map Field.clearErrors := by
  cases names with
  | nil => rfl
  | cons name rest =>
      rw [field?, field?, find?_clearErrors]
      rcases Member.find? name rest form.members with _ | entry | ⟨group, members⟩
      · rfl
      · rfl
      · rfl

theorem Node.formAt?_clearErrors (segments : List String) (node : Node) :
    node.clearErrors.formAt? segments = (node.formAt? segments).map fun entry => (entry.1, entry.2.clearErrors) :=
  Node.formAt?_mapForms Form.clearErrors segments node

theorem Node.wire_clearErrors (node : Node) : node.clearErrors.wire = node.wire :=
  node.wire_mapForms Form.wire_clearErrors

namespace Tree

/-! ## Trees that differ in messages only -/

theorem field?_clearErrors (tree : Tree) (path : Path) :
    tree.clearErrors.field? path = (tree.field? path).map Field.clearErrors := by
  have below : tree.clearErrors.below? path = tree.below? path := rfl
  have root : tree.clearErrors.root = tree.root.clearErrors := rfl
  rw [field?, field?, below, root]
  cases tree.below? path with
  | none => rfl
  | some segments =>
      rw [Option.bind_some, Option.bind_some, Node.field?, Node.field?, Node.formAt?_clearErrors]
      cases tree.root.formAt? segments with
      | none => rfl
      | some entry => exact entry.2.field?_clearErrors entry.1

theorem node?_clearErrors (tree : Tree) (path : Path) :
    tree.clearErrors.node? path = (tree.node? path).map Node.clearErrors := by
  have below : tree.clearErrors.below? path = tree.below? path := rfl
  rw [node?, node?, below]
  cases tree.below? path with
  | none => rfl
  | some segments => exact Node.get?_mapForms Form.clearErrors segments tree.root

theorem partialPayload_clearErrors (tree : Tree) (scope : Path) :
    tree.clearErrors.partialPayload scope = tree.partialPayload scope := by
  have below : tree.clearErrors.below? scope = tree.below? scope := rfl
  rw [partialPayload, partialPayload, below, node?_clearErrors]
  cases tree.node? scope with
  | none => rfl
  | some node => exact congrArg (InitialData.nest _) node.wire_clearErrors

/-- What a button would send now: the whole tree, or the form that owns the button. -/
def outgoing (tree : Tree) (button : Path) : Method → Json
  | .post => tree.payload
  | .patch => tree.partialPayload (tree.ownerOf button)

namespace Alike

variable {first second : Tree}

theorem symm (alike : Alike first second) : Alike second first :=
  ⟨alike.namespaceText.symm, alike.firing.symm, alike.root.symm⟩

theorem trans {third : Tree} (alike : Alike first second) (further : Alike second third) : Alike first third :=
  ⟨alike.namespaceText.trans further.namespaceText, alike.firing.trans further.firing, alike.root.trans further.root⟩

variable (alike : Alike first second)
include alike

/-- Without their messages the trees differ in the pending submission and in the last response only. -/
theorem clearErrors_eq :
    first.clearErrors = { second.clearErrors with pending := first.pending, response := first.response } := by
  obtain ⟨namespaceText, firing, root⟩ := alike
  simp only [clearErrors, namespaceText, firing, root]

theorem decidesAlike : DecidesAlike first second := by
  have cleared : ChangedUnseen second first.clearErrors := by
    rw [alike.clearErrors_eq]
    exact ⟨rfl, second.changedUnseen_clearErrors.root⟩
  exact first.changedUnseen_clearErrors.decidesAlike.symm.trans cleared.decidesAlike

theorem ownerOf (button : Path) : first.ownerOf button = second.ownerOf button := by
  rw [← first.changedUnseen_clearErrors.ownerOf, ← second.changedUnseen_clearErrors.ownerOf, alike.clearErrors_eq]
  rfl

/-- Every field has a counterpart at its path that differs in messages only. -/
theorem exists_field {path : Path} {field : Field} (found : second.field? path = some field) :
    ∃ other, first.field? path = some other ∧ other.clearErrors = field.clearErrors := by
  have same : first.clearErrors.field? path = second.clearErrors.field? path := by
    rw [alike.clearErrors_eq]
    rfl
  rw [field?_clearErrors, field?_clearErrors, found] at same
  exact Option.map_eq_some_iff.mp same

theorem payload : first.payload = second.payload := by
  have root := congrArg Node.wire alike.root
  rwa [Node.wire_clearErrors, Node.wire_clearErrors] at root

theorem partialPayload (scope : Path) : first.partialPayload scope = second.partialPayload scope := by
  rw [← partialPayload_clearErrors, ← second.partialPayload_clearErrors, alike.clearErrors_eq]
  rfl

/-- A button would send the same. -/
theorem outgoing (button : Path) (method : Method) :
    first.outgoing button method = second.outgoing button method := by
  cases method with
  | post => exact alike.payload
  | patch => rw [Tree.outgoing, Tree.outgoing, alike.ownerOf, alike.partialPayload]

end Alike

theorem Notes.alike {tree after : Tree} (notes : Notes tree after) : Alike after tree := by
  induction notes with
  | refl => exact ⟨rfl, rfl, rfl⟩
  | tail _ last same => exact last.alike.trans same

end Tree

/-! ## The request that a submission sends -/

namespace Cycle

variable {button : Path} {remaining reject : List Call}

/-- A submission that is sent reports a request with what the button would send, and then waits. -/
theorem beginSubmission_eq {tree : Tree} {method : Method}
    (sent : ((start tree).beginSubmission button method remaining reject).2 = .suspended) :
    ((start tree).beginSubmission button method remaining reject).1.report =
        { Report.empty with effects := [.submit ⟨method, tree.outgoing button method⟩] } ∧
      ((start tree).beginSubmission button method remaining reject).1.tree.pending =
        some ⟨button, method, remaining, reject⟩ := by
  unfold beginSubmission at sent ⊢
  cases method with
  | post =>
      dsimp only at sent ⊢
      split at sent
      · rename_i valid
        rw [if_pos valid, emit, (Tree.validate_notes _).alike.payload]
        exact ⟨rfl, rfl⟩
      · cases sent
  | patch =>
      dsimp only at sent ⊢
      split at sent
      · rename_i valid
        rw [if_pos valid, emit, (Tree.validatePart_notes _ _).alike.partialPayload]
        exact ⟨rfl, rfl⟩
      · cases sent

variable {cycle : Cycle} {call : Call}

/-- A call that suspends the chain begins a submission. -/
theorem exists_begins (sent : (cycle.perform button remaining reject call).2 = .suspended) :
    ∃ method, ∀ cycle : Cycle, cycle.perform button remaining reject call =
      cycle.beginSubmission button method remaining reject := by
  have stops (result : Cycle × Bool) : (ending result).2 ≠ .suspended := by
    unfold ending
    split <;> simp
  cases call with
  | submit => exact ⟨.post, fun _ => rfl⟩
  | submitPartial => exact ⟨.patch, fun _ => rfl⟩
  | activate arguments => exact absurd sent (stops _)
  | setFieldValue target source => exact absurd sent (stops _)
  | deleteValue target => exact absurd sent (stops _)
  | disable => exact absurd sent (stops _)
  | enable => exact absurd sent (stops _)
  | proceed given =>
      unfold perform at sent
      dsimp only at sent
      split at sent <;> cases sent
  | reset => cases sent
  | clearErrors => cases sent
  | noop => cases sent

/-- A chain whose first call suspends it is run no further. -/
theorem run_cons_of_suspended (sent : (cycle.perform button remaining reject call).2 = .suspended) :
    cycle.run button (call :: remaining) reject = (cycle.perform button remaining reject call).1 := by
  rw [run, runChain]
  generalize cycle.perform button remaining reject call = performed at sent ⊢
  obtain ⟨after, ending⟩ := performed
  cases sent
  rfl

end Cycle

namespace Tree

/-! ## What happens to a tree that waits -/

/-- Nothing but messages changes while a tree waits, until an outcome is delivered. -/
theorem after_notes {tree : Tree} {operation : Operation} (busy : tree.isBusy = true)
    (other : ∀ outcome, operation ≠ .complete outcome) : Notes tree (tree.after operation) := by
  unfold after
  split
  · rename_i cycle done
    cases operation with
    | setValue path value => exact absurd (setValue_eq_ok done).1 (by simp [busy])
    | click path => exact absurd (click_eq_ok done).1 (by simp [busy])
    | addSibling path behind => exact absurd (addSibling_eq_ok done).1 (by simp [busy])
    | removeSibling path index => exact absurd (removeSibling_eq_ok done).1 (by simp [busy])
    | goToStep path index => exact absurd (goToStep_eq_ok done).1 (by simp [busy])
    | validate =>
        cases done
        exact tree.validate_notes
    | validatePart scope =>
        cases done
        exact tree.validatePart_notes scope
    | applyErrors messages =>
        cases done
        exact tree.applyErrors_notes messages
    | reset => exact absurd (reset_eq_ok done).1 (by simp [busy])
    | complete outcome => exact absurd rfl (other outcome)
  · exact .refl

theorem click_eq_ok_iff {tree : Tree} {path : Path} {field : Field} {button : Button} {cycle : Cycle}
    (found : tree.field? path = some field) (isButton : field.button = some button) :
    tree.click path = .ok cycle ↔ tree.isBusy = false ∧ field.hidden = false ∧ field.disabled = false ∧
      (Cycle.start tree).run path button.pipeline.success button.pipeline.reject = cycle := by
  rw [click, found]
  dsimp only
  rw [isButton]
  cases tree.isBusy <;> cases field.hidden <;> cases field.disabled <;> simp

/-- A button was clicked, the first call of its success chain has sent a request, and the tree has been waiting for the
outcome since. -/
inductive SentFirst (path : Path) (clicked : Cycle) : Tree → Prop where
  | clicked {before : Tree} {field : Field} {button : Button} {call : Call} {rest : List Call}
      (accepted : before.click path = .ok clicked) (found : before.field? path = some field)
      (isButton : field.button = some button)
      (chain : button.pipeline.success = call :: rest)
      (suspended : ((Cycle.start before).perform path rest button.pipeline.reject call).2 = .suspended) :
      SentFirst path clicked clicked.tree
  | waiting {tree : Tree} (sent : SentFirst path clicked tree) (operation : Operation)
      (undelivered : ∀ outcome, operation ≠ .complete outcome) : SentFirst path clicked (tree.after operation)

/-- The click reported nothing but a request, the tree waits for its outcome, and clicking again in any idle tree that
differs in messages only from the one that waits sends the request once more. -/
theorem SentFirst.repeats {path : Path} {clicked : Cycle} {tree : Tree} (sent : SentFirst path clicked tree) :
    tree.isBusy = true ∧ ∃ request, clicked.report = { Report.empty with effects := [.submit request] } ∧
      ∀ idle : Tree, idle.isBusy = false → Alike idle tree → ∃ again, idle.click path = .ok again ∧
        again.report = clicked.report ∧ again.tree.pending = tree.pending := by
  induction sent with
  | @clicked before field button call rest accepted found isButton chain suspended =>
      obtain ⟨method, begins⟩ := Cycle.exists_begins suspended
      rw [begins] at suspended
      obtain ⟨reported, waits⟩ := Cycle.beginSubmission_eq suspended
      obtain ⟨-, visible, enabled, same⟩ := (click_eq_ok_iff found isButton).mp accepted
      rw [chain, Cycle.run_cons_of_suspended (by rwa [begins]), begins] at same
      subst same
      refine ⟨by rw [isBusy, waits]; rfl, _, reported, fun idle isIdle alike => ?_⟩
      have alikeBefore : Alike idle before :=
        alike.trans ((Cycle.start before).beginSubmission_notes path method rest button.pipeline.reject).alike
      have suspendedAgain : ((Cycle.start idle).beginSubmission path method rest button.pipeline.reject).2 =
          .suspended := (alikeBefore.decidesAlike.submission _ _ _ _ _).trans suspended
      obtain ⟨reportedAgain, waitsAgain⟩ := Cycle.beginSubmission_eq suspendedAgain
      obtain ⟨other, foundAgain, sameField⟩ := alikeBefore.exists_field found
      have isButtonAgain : other.button = some button := (congrArg Field.button sameField).trans isButton
      have visibleAgain : other.hidden = false := (congrArg Field.hidden sameField).trans visible
      have enabledAgain : other.disabled = false := (congrArg Field.disabled sameField).trans enabled
      refine ⟨_, (click_eq_ok_iff foundAgain isButtonAgain).mpr ⟨isIdle, visibleAgain, enabledAgain, rfl⟩, ?_⟩
      rw [chain, Cycle.run_cons_of_suspended (by rwa [begins]), begins, reportedAgain, reported, waitsAgain, waits]
      exact ⟨by rw [alikeBefore.outgoing], rfl⟩
  | @waiting tree sent operation undelivered ih =>
      obtain ⟨busy, request, reported, repeats⟩ := ih
      have pending := pending_after busy undelivered
      refine ⟨?_, request, reported, fun idle isIdle alike => ?_⟩
      · rwa [isBusy, pending]
      · rw [pending]
        exact repeats idle isIdle (alike.trans (after_notes busy undelivered).alike)

/-! ## Deliveries that fail -/

/-- A delivery that fails ends the wait and is reported, and nothing else happens if no reject chain was saved. -/
theorem complete_of_fails {tree : Tree} {pending : Pending} (waits : tree.pending = some pending)
    (unsaved : pending.reject = []) {outcome : Outcome} (fails : outcome.Fails) :
    tree.complete outcome =
      .ok ⟨{ tree with pending := none }, { Report.empty with failure := some outcome.complaint }⟩ := by
  rw [complete_eq waits, unsaved]
  cases outcome with
  | error failure => rfl
  | ok response =>
      obtain ⟨unsuccessful, other⟩ := fails
      have unsuccessful : response.isSuccess = false := by
        simpa [Response.isSuccess] using unsuccessful
      have other : response.isValidationFailure = false := by
        simpa [Response.isValidationFailure] using other
      simp only [success?, unsuccessful, refused, refusal, other, Bool.false_eq_true, if_false]
      rfl

/-- A delivery that fails loses nothing if no reject chain was saved: the tree is as it was, but does not wait, and only
the failure is reported. If the request was sent by the first call of a button's success chain, the button can be
clicked again and sends the same request. -/
theorem resends {tree : Tree} {pending : Pending} (waits : tree.pending = some pending)
    (unsaved : pending.reject = []) {outcome : Outcome} (fails : outcome.Fails) :
    tree.complete outcome =
        .ok ⟨{ tree with pending := none }, { Report.empty with failure := some outcome.complaint }⟩ ∧
      ∀ path clicked, SentFirst path clicked tree → ∃ request again,
        clicked.report = { Report.empty with effects := [.submit request] } ∧
          { tree with pending := none }.click path = .ok again ∧
            again.report = { Report.empty with effects := [.submit request] } ∧ again.tree.pending = tree.pending := by
  refine ⟨complete_of_fails waits unsaved fails, fun path clicked sent => ?_⟩
  obtain ⟨-, request, reported, repeats⟩ := sent.repeats
  obtain ⟨again, accepted, reportedAgain, waitsAgain⟩ := repeats { tree with pending := none } rfl ⟨rfl, rfl, rfl⟩
  exact ⟨request, again, reported, accepted, reportedAgain.trans reported, waitsAgain⟩

/-- The reporter is kept once more after the server was not available. -/
theorem resends_reporter : ∃ (tree : Tree) (clicked : Cycle) (pending : Pending),
    Tree.mount reporting none = .ok tree ∧
      (tree.run [.click ⟨["page", "add"]⟩, .setValue ⟨["reporter", "name"]⟩ (.text "Ada")]).click
        ⟨["reporter", "keep"]⟩ = .ok clicked ∧
      clicked.tree.pending = some pending ∧ pending.reject = [] ∧ Outcome.Fails (.ok ⟨503, .text "unavailable"⟩) ∧
      clicked.tree.complete (.ok ⟨503, .text "unavailable"⟩) = .ok ⟨{ clicked.tree with pending := none },
        { Report.empty with failure := some "unexpected response status 503" }⟩ ∧
      ∃ request again, clicked.report = { Report.empty with effects := [.submit request] } ∧
        { clicked.tree with pending := none }.click ⟨["reporter", "keep"]⟩ = .ok again ∧
          again.report = { Report.empty with effects := [.submit request] } := by
  let entered (tree : Tree) := tree.run [.click ⟨["page", "add"]⟩, .setValue ⟨["reporter", "name"]⟩ (.text "Ada")]
  have sends : ((Tree.mount reporting none).toOption.bind fun tree =>
      ((entered tree).click ⟨["reporter", "keep"]⟩).toOption.bind fun clicked =>
        ((entered tree).field? ⟨["reporter", "keep"]⟩).bind fun field => field.button.map fun button =>
          (clicked.tree.pending, button.pipeline.success, button.pipeline.reject,
            ((Cycle.start (entered tree)).perform ⟨["reporter", "keep"]⟩ [] [] .submitPartial).2)) =
      some (some ⟨⟨["reporter", "keep"]⟩, .patch, [], []⟩, [.submitPartial], [], .suspended) := by decide +kernel
  obtain ⟨tree, mounted, clicks⟩ := Option.bind_eq_some_iff.mp sends
  obtain ⟨clicked, accepted, fields⟩ := Option.bind_eq_some_iff.mp clicks
  obtain ⟨field, found, buttons⟩ := Option.bind_eq_some_iff.mp fields
  obtain ⟨button, isButton, same⟩ := Option.map_eq_some_iff.mp buttons
  rw [toOption_eq_some] at mounted accepted
  simp only [Prod.mk.injEq] at same
  obtain ⟨waits, success, reject, suspended⟩ := same
  have sent : SentFirst ⟨["reporter", "keep"]⟩ clicked clicked.tree :=
    .clicked accepted found isButton success (by rw [reject]; exact suspended)
  have fails : Outcome.Fails (.ok ⟨503, .text "unavailable"⟩) := by simp [Outcome.Fails]
  obtain ⟨completed, retried⟩ := resends waits rfl fails
  obtain ⟨request, again, reported, acceptedAgain, reportedAgain, -⟩ := retried _ _ sent
  exact ⟨tree, clicked, _, mounted, accepted, waits, rfl, fails, completed, request, again, reported, acceptedAgain,
    reportedAgain⟩

end Tree

end Formwork
