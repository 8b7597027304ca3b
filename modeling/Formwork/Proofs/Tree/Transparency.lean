import Mathlib.Data.List.Infix
import Formwork.Proofs.Node.Rebuilding
import Formwork.Proofs.Tree.Inducing
import Formwork.Proofs.Tree.Transporting

/-!
# A namespace is transparent for steady references

A description is mounted twice, without a namespace and under one, and then the same operations are done to both
trees, addressed below their roots. If every reference is steady in each of the trees that are passed through, then
the two trees stay alike: they hold the same fields, groups and nodes behind the namespace as without it, they refuse
the same operations, and they report the same but for the namespace in front of the inducers.

Other references tell the namespace apart. An absolute reference means a field at the root before any other one if
there is no namespace, and after all other ones if there is one (`Reference.candidates_absolute`), so a condition
that means a field at the root and a field around it at once can hold in one tree and not in the other.
-/

set_option autoImplicit false

namespace Formwork

namespace Node

theorem listing_markPrefilled {α : Type} (ofForm : Path → Form → List α) (ofFrame : Path → Frame → List α) (path : Path)
    (node : Node) : node.markPrefilled.listing ofForm ofFrame path = node.listing ofForm ofFrame path := by
  induction node using Node.induction generalizing path with
  | form content => rfl
  | collection frame progress members ih =>
      rw [markPrefilled, listing_collection, listing_collection, markPrefilledAll_eq, List.flatMap_map]
      exact congrArg _ (List.flatMap_congr fun entry inside => ih entry inside _)
  | series frame template siblings _ _ => rfl

end Node

namespace Tree

variable {text : String} {tree : Tree}

/-! ## Calls that wait -/

/-- Whether the calls that wait for an outcome can be carried out under a namespace. -/
def Fits (above : Path) (tree : Tree) : Prop :=
  ∀ pending, tree.pending = some pending → tree.Carries above pending.button (pending.remaining ++ pending.reject)

variable {above : Path}

theorem Fits.of_moves {after : Tree} (fits : tree.Fits above) (moves : Moves tree after)
    (same : after.pending = tree.pending) : after.Fits above := by
  intro pending waits
  exact moves.carries (fits pending (same.symm.trans waits))

theorem Fits.of_idle (idle : tree.pending = none) : tree.Fits above := by
  intro pending waits
  rw [idle] at waits
  cases waits

end Tree

namespace Cycle

variable {above : Path} {cycle : Cycle} {button : Path} {chain reject : List Call}

/-- What a chain leaves waiting is a part of it. -/
theorem runChain_fits (fits : cycle.tree.Fits above) (carries : cycle.tree.Carries above button (chain ++ reject)) :
    (cycle.runChain button reject chain).1.tree.Fits above := by
  have moves := cycle.runChain_moves button reject chain
  obtain ⟨effects, -, sends⟩ := cycle.runChain_sends button reject chain
  generalize cycle.runChain button reject chain = ran at moves sends ⊢
  obtain ⟨after, ending⟩ := ran
  dsimp only at moves sends ⊢
  generalize waits : after.tree.pending = now at sends
  cases sends with
  | completed => exact fits.of_moves moves waits
  | failed => exact fits.of_moves moves waits
  | @suspended front rest call effects split submits quiet request =>
      intro pending same
      cases waits.symm.trans same
      rw [split, List.append_assoc] at carries
      obtain ⟨-, later⟩ := Tree.Carries.append_iff.mp carries
      rw [List.cons_append, ← List.singleton_append] at later
      exact moves.carries (Tree.Carries.append_iff.mp later).2

theorem run_fits (fits : cycle.tree.Fits above) (carries : cycle.tree.Carries above button (chain ++ reject)) :
    (cycle.run button chain reject).tree.Fits above := by
  have first := runChain_fits fits carries
  have moves := cycle.runChain_moves button reject chain
  unfold run
  generalize cycle.runChain button reject chain = ran at first moves ⊢
  obtain ⟨after, ending⟩ := ran
  cases ending with
  | completed => exact first
  | suspended => exact first
  | failed =>
      refine runChain_fits first (moves.carries ?_)
      rw [List.append_nil]
      exact (Tree.Carries.append_iff.mp carries).2

end Cycle

namespace Tree

variable {text : String} {tree : Tree}

/-- A tree that can go through operations under a namespace. -/
structure Portable (above : Path) (tree : Tree) : Prop extends Movable above tree where
  fits : tree.Fits above

theorem Portable.fits_after {above : Path} (portable : tree.Portable above) {operation : Operation} {cycle : Cycle}
    (done : tree.answer operation = .ok cycle) : cycle.tree.Fits above := by
  cases operation with
  | setValue path value =>
      obtain ⟨idle, -, rfl⟩ := setValue_eq_ok done
      refine .of_idle ?_
      rw [Cycle.pending_settle, pending_store]
      exact isBusy_eq_false_iff.mp idle
  | click path =>
      obtain ⟨-, field, button, stands, isButton, -, -, rfl⟩ := click_eq_ok done
      exact @Cycle.run_fits _ (.start tree) _ _ _ portable.fits (carries_of_button portable.toMovable stands isButton)
  | addSibling path behind =>
      obtain ⟨idle, node, extended, index, -, -, rfl⟩ := addSibling_eq_ok done
      refine .of_idle ?_
      rw [Cycle.pending_settle, pending_change]
      exact isBusy_eq_false_iff.mp idle
  | removeSibling path index =>
      obtain ⟨idle, node, reduced, -, -, rfl⟩ := removeSibling_eq_ok done
      refine .of_idle ?_
      rw [Cycle.pending_settle, pending_change]
      exact isBusy_eq_false_iff.mp idle
  | goToStep path index =>
      obtain ⟨idle, moved, arrived, navigated, rfl⟩ := goToStep_eq_ok done
      refine .of_idle ?_
      rw [Cycle.pending_settle, Cycle.pending_navigate _ navigated]
      exact isBusy_eq_false_iff.mp idle
  | validate =>
      cases done
      exact portable.fits.of_moves tree.validate_notes.moves rfl
  | validatePart scope =>
      cases done
      exact portable.fits.of_moves (tree.validatePart_notes scope).moves (tree.pending_validatePart scope)
  | applyErrors messages =>
      cases done
      exact portable.fits.of_moves (tree.applyErrors_notes messages).moves (tree.pending_applyErrors messages)
  | reset =>
      obtain ⟨-, rfl⟩ := reset_eq_ok done
      exact portable.fits.of_moves tree.restore_moves rfl
  | complete outcome =>
      obtain ⟨pending, waits, rfl⟩ := complete_eq_ok done
      have carries := portable.fits pending waits
      cases success? outcome with
      | some response =>
          exact @Cycle.run_fits _ (.start (tree.informed response)) _ _ _ (.of_idle rfl)
            ((tree.informed_notes response).moves.carries carries)
      | none =>
          refine @Cycle.runChain_fits _ ⟨tree.refused outcome, refusal outcome⟩ _ _ _
            (.of_idle (tree.pending_refused outcome)) ((tree.refused_notes outcome).moves.carries ?_)
          rw [List.append_nil]
          exact (Carries.append_iff.mp carries).2

theorem Portable.after {above : Path} (portable : tree.Portable above) {operation : Operation}
    (steady : (tree.after operation).Steady above) : (tree.after operation).Portable above where
  top := (tree.after_course operation).here.trans portable.top
  regular := portable.regular.follows (tree.after_course operation).follows
  steady := steady
  fits := by
    unfold Tree.after
    split
    · rename_i done
      exact portable.fits_after done
    · exact portable.fits

/-! ## Runs -/

/-- What a tree answers under a namespace is what it answers without it. -/
theorem answer_under (free : (Path.parse text).last? ≠ some Response.groupKey) (portable : tree.Portable (.parse text))
    {operation : Operation} (steady : (tree.after operation).Steady (.parse text)) :
    (tree.under text).answer (operation.under (.parse text)) =
      (Path.parse text).answer (Cycle.under text) (tree.answer operation) := by
  have movable := portable.toMovable
  have accepted {cycle : Cycle} (done : tree.answer operation = .ok cycle) : cycle.tree.Steady (.parse text) := by
    rwa [Tree.after, done] at steady
  cases operation with
  | setValue path value => exact setValue_under movable path value
  | click path => exact click_under movable path
  | addSibling path behind => exact addSibling_under movable path behind fun _ => accepted
  | removeSibling path index => exact removeSibling_under movable path index fun _ => accepted
  | goToStep path index => exact goToStep_under movable path index
  | validate => exact congrArg (fun checked => Except.ok (Cycle.start checked.1)) (validate_under portable.top)
  | validatePart scope =>
      exact congrArg (fun checked => Except.ok (Cycle.start checked.1)) (validatePart_under portable.top scope)
  | applyErrors messages =>
      exact congrArg (fun tree => Except.ok (Cycle.start tree)) (applyErrors_under portable.top free messages)
  | reset => exact reset_under movable
  | complete outcome => exact complete_under movable free portable.fits outcome

theorem after_under (free : (Path.parse text).last? ≠ some Response.groupKey) (portable : tree.Portable (.parse text))
    {operation : Operation} (steady : (tree.after operation).Steady (.parse text)) :
    (tree.under text).after (operation.under (.parse text)) = (tree.after operation).under text := by
  rw [Tree.after, answer_under free portable steady, Tree.after]
  cases tree.answer operation <;> rfl

/-- What a tree answers to some operations one after the other: reports and refusals. -/
def reports (tree : Tree) : List Operation → List (Except Rejection Report)
  | [] => []
  | operation :: rest => (tree.answer operation).map Cycle.report :: (tree.after operation).reports rest

theorem here_run (tree : Tree) (operations : List Operation) : (tree.run operations).here = tree.here := by
  induction operations generalizing tree with
  | nil => rfl
  | cons operation rest ih => exact (ih _).trans (tree.after_course operation).here

/-- A run under a namespace answers what the run without it answers, and ends with the same tree. -/
theorem run_under (free : (Path.parse text).last? ≠ some Response.groupKey) (portable : tree.Portable (.parse text))
    {operations : List Operation}
    (steady : ∀ front, front <+: operations → (tree.run front).Steady (.parse text)) :
    (tree.under text).reports (operations.map (Operation.under (.parse text))) =
        (tree.reports operations).map ((Path.parse text).answer (Report.under (.parse text))) ∧
      (tree.under text).run (operations.map (Operation.under (.parse text))) = (tree.run operations).under text := by
  induction operations generalizing tree with
  | nil => exact ⟨rfl, rfl⟩
  | cons operation rest ih =>
      have next : (tree.after operation).Steady (.parse text) := steady [operation] ⟨rest, rfl⟩
      obtain ⟨reportsLater, runLater⟩ := ih (portable.after next) fun front inside =>
        steady (operation :: front) (List.prefix_cons_inj operation |>.mpr inside)
      have answered := answer_under free portable next
      have after := after_under free portable next
      constructor
      · rw [List.map_cons, reports, reports, after, reportsLater, answered, List.map_cons]
        cases tree.answer operation <;> rfl
      · exact (congrArg (Tree.run · _) after).trans runLater

/-! ## Mounting -/

theorem steady_prefilled {above : Path} : tree.prefilled.Steady above ↔ tree.Steady above := by
  have places : tree.prefilled.fieldPlaces = tree.fieldPlaces := by
    change (tree.root.markPrefilled.fields tree.here).map Prod.fst = _
    rw [Node.fields, Node.forms_markPrefilled]
    rfl
  have references : tree.prefilled.references = tree.references := Node.listing_markPrefilled _ _ _ _
  rw [Steady, Steady, places, references]

/-- A description that can be mounted without a namespace can be mounted under one. -/
theorem mount_under {blueprint : Blueprint} (bare : blueprint.namespaceText = none) {initial : Option Json}
    (mounted : Tree.mount blueprint initial = .ok tree) (steady : tree.Steady (.parse text)) :
    Tree.mount { blueprint with namespaceText := some text } initial = .ok (tree.under text) ∧
      tree.Portable (.parse text) := by
  obtain ⟨here, built, nodeBuilt, rfl⟩ := mount_eq_ok mounted
  have refreshed : Moves (planted blueprint initial built) (planted blueprint initial built).refresh :=
    .single (.refresh _)
  have latched : Moves (planted blueprint initial built).refresh.prefilled
      (planted blueprint initial built).refresh.prefilled.latch := .single (.latch _)
  have regular := (Node.build_regular blueprint.distinct nodeBuilt).follows
    (Node.follows_fill (initial.map InitialData.expandKeys) built)
  have top : (planted blueprint initial built).here = .root := by
    rw [Tree.here, planted, bare]
  have prefilledSteady := latched.steady_iff.mp steady
  have start : (planted blueprint initial built).Movable (.parse text) :=
    ⟨top, regular, refreshed.steady_iff.mp (steady_prefilled.mp prefilledSteady)⟩
  have prefilled : (planted blueprint initial built).refresh.prefilled.Movable (.parse text) :=
    ⟨top, (refreshed.movable start).regular.follows (Node.follows_markPrefilled _), prefilledSteady⟩
  constructor
  · refine bind_eq_ok.mpr ⟨built, Node.build_path nodeBuilt, ?_⟩
    have plantedUnder : planted { blueprint with namespaceText := some text } initial built =
        (planted blueprint initial built).under text := rfl
    have mountedUnder : (planted { blueprint with namespaceText := some text } initial built).refresh.prefilled.latch =
        (planted blueprint initial built).refresh.prefilled.latch.under text := by
      rw [plantedUnder, refresh_under start, ← latch_under prefilled]
      rfl
    exact congrArg Except.ok mountedUnder
  · exact { latched.movable prefilled with fits := .of_idle rfl }

/-! ## Two trees side by side -/

/-- The second tree holds behind the namespace what the first one holds without it. -/
structure Corresponds (text : String) (plain spaced : Tree) : Prop where
  /-- Fields have equal values and validities, and the same of them are hidden, disabled and required. -/
  field : ∀ place, spaced.field? ((Path.parse text).extend place) = plain.field? place
  /-- Forms and fieldsets show equal messages, and the same of them are hidden and disabled. -/
  group : ∀ place, spaced.group? ((Path.parse text).extend place) = plain.group? place
  /-- The same dialogs are open, series have the same siblings, and steppers have come as far. -/
  node : ∀ place, spaced.node? ((Path.parse text).extend place) = plain.node? place
  /-- Nothing stands outside the namespace. -/
  outside : ∀ path, (∀ place, path ≠ (Path.parse text).extend place) →
    spaced.field? path = none ∧ spaced.group? path = none ∧ spaced.node? path = none
  /-- Fields come in the same order. -/
  fields : spaced.fields = (Path.parse text).shift plain.fields
  collected : spaced.collected = (Path.parse text).shift plain.collected
  payload : spaced.payload = plain.payload
  partialPayload : ∀ scope, spaced.partialPayload ((Path.parse text).extend scope) = plain.partialPayload scope
  isValid : spaced.isValid = plain.isValid
  validation : spaced.validate.2 = plain.validate.2
  partialValidation : ∀ scope,
    (spaced.validatePart ((Path.parse text).extend scope)).2 = (plain.validatePart scope).2
  isBusy : spaced.isBusy = plain.isBusy
  response : spaced.response = plain.response
  strayErrors : spaced.strayErrors = plain.strayErrors

theorem corresponds_under (top : tree.here = .root) : Corresponds text tree (tree.under text) where
  field := field?_under top
  group := group?_under top
  node := node?_under top
  outside path outside := by
    have nowhere : (tree.under text).below? path = none :=
      Option.eq_none_iff_forall_not_mem.mpr fun segments below => outside _ (below?_eq_some_iff.mp below)
    rw [field?, group?, node?, nowhere]
    exact ⟨rfl, rfl, rfl⟩
  fields := fields_under top
  collected := by
    have moved := Node.collected_extend (.parse text) .root tree.root
    rw [Path.extend_root, ← top] at moved
    exact moved
  payload := rfl
  partialPayload := partialPayload_under top
  isValid := rfl
  validation := by rw [validate_under top]
  partialValidation scope := by rw [validatePart_under top]
  isBusy := isBusy_under
  response := rfl
  strayErrors := rfl

/-- A description whose references stay steady is mounted under a namespace as it is without one, and the two trees
answer alike and stay alike whatever is done to both of them. -/
theorem transparent {blueprint : Blueprint} (bare : blueprint.namespaceText = none) {initial : Option Json}
    {plain : Tree} (mounted : Tree.mount blueprint initial = .ok plain) {text : String}
    (free : (Path.parse text).last? ≠ some Response.groupKey) {operations : List Operation}
    (steady : ∀ front, front <+: operations → (plain.run front).Steady (.parse text)) :
    ∃ spaced, Tree.mount { blueprint with namespaceText := some text } initial = .ok spaced ∧
      spaced.reports (operations.map (Operation.under (.parse text))) =
        (plain.reports operations).map ((Path.parse text).answer (Report.under (.parse text))) ∧
      Corresponds text (plain.run operations) (spaced.run (operations.map (Operation.under (.parse text)))) := by
  obtain ⟨mountedUnder, portable⟩ := mount_under bare mounted (steady [] List.nil_prefix)
  obtain ⟨reports, ran⟩ := run_under free portable steady
  refine ⟨plain.under text, mountedUnder, reports, ?_⟩
  rw [ran]
  exact corresponds_under ((plain.here_run operations).trans portable.top)

/-- Making the order a gift opens the dialog for its wrapping under a namespace as it does without one. -/
theorem transparent_gifts : ∃ plain spaced, Tree.mount { gifts with namespaceText := none } none = .ok plain ∧
    Tree.mount { gifts with namespaceText := some "shop" } none = .ok spaced ∧
      Corresponds "shop" (plain.run [.setValue ⟨["order", "gift"]⟩ (.text "yes")])
        (spaced.run [.setValue ⟨["shop", "order", "gift"]⟩ (.text "yes")]) := by
  have holds : ((Tree.mount { gifts with namespaceText := none } none).toOption.map fun plain =>
      [.setValue ⟨["order", "gift"]⟩ (.text "yes")].inits.all fun front =>
        decide ((plain.run front).Steady (.parse "shop"))) = some true := by decide +kernel
  obtain ⟨plain, mounted, steady⟩ := Option.map_eq_some_iff.mp holds
  rw [toOption_eq_some] at mounted
  obtain ⟨spaced, mountedUnder, -, corresponds⟩ := transparent rfl mounted (by decide +kernel) fun front inside =>
    of_decide_eq_true (List.all_eq_true.mp steady front ((List.mem_inits _ _).mpr inside))
  exact ⟨plain, spaced, mounted, mountedUnder, corresponds⟩

/-- A gift can be chosen on the form and for the order in it, and the order has a note that is shown for a gift. -/
def nestedGifts : Blueprint where
  namespaceText := none
  root := .form ⟨none, none, .absent⟩ none
    [("gift", .field .standard),
      ("order", .fieldset ⟨none, none, .absent⟩
        [("gift", .field .standard), ("note", .field { FieldPlan.standard with showWhile := some "gift" })])]
  distinct := by decide

/-- Without a namespace the note is shown for the gift on the form, and under one it waits for that of the order. -/
theorem not_transparent : ∃ plain spaced, Tree.mount nestedGifts none = .ok plain ∧
    Tree.mount { nestedGifts with namespaceText := some "shop" } none = .ok spaced ∧
      ((plain.after (.setValue ⟨["gift"]⟩ (.text "yes"))).field? ⟨["order", "note"]⟩).map Field.hidden = some false ∧
        ((spaced.after (.setValue ⟨["shop", "gift"]⟩ (.text "yes"))).field? ⟨["shop", "order", "note"]⟩).map
          Field.hidden = some true := by
  have shows : ((Tree.mount nestedGifts none).toOption.bind fun plain =>
      ((plain.after (.setValue ⟨["gift"]⟩ (.text "yes"))).field? ⟨["order", "note"]⟩).map Field.hidden) =
        some false := by decide +kernel
  have hides : ((Tree.mount { nestedGifts with namespaceText := some "shop" } none).toOption.bind fun spaced =>
      ((spaced.after (.setValue ⟨["shop", "gift"]⟩ (.text "yes"))).field? ⟨["shop", "order", "note"]⟩).map
        Field.hidden) = some true := by decide +kernel
  obtain ⟨plain, mounted, shown⟩ := Option.bind_eq_some_iff.mp shows
  obtain ⟨spaced, mountedUnder, hidden⟩ := Option.bind_eq_some_iff.mp hides
  rw [toOption_eq_some] at mounted mountedUnder
  exact ⟨plain, spaced, mounted, mountedUnder, shown, hidden⟩

end Tree

end Formwork
