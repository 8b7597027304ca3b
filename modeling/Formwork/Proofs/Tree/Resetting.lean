import Formwork.Proofs.Node.Resetting
import Formwork.Proofs.Tree.Coherence
import Formwork.Proofs.Tree.DialogControl
import Formwork.Proofs.Tree.Keeping
import Formwork.Proofs.Tree.Marks
import Formwork.Proofs.Tree.Namespace
import Formwork.Proofs.Tree.Steps

/-!
# What a reset restores

A reset restores every field, those of pristine siblings and of siblings that were added later included, forgets every
message, and derives flags and latches anew without carrying out an inducer. Everything else lasts: the siblings and
their marks, open dialogs, steps, the marks that buttons carry, and the last response (`Tree.lasting_restore`).

A reset of a restored tree finds nothing to restore, and since a restored tree is at rest nothing is derived
differently either. So a second reset changes nothing at all (`Tree.AtRest.restore_restore`).
-/

set_option autoImplicit false

namespace Formwork.Tree

/-! ## What lasts -/

/-- The tree without values and messages, and without flags and latches. -/
def lasting (tree : Tree) : Tree := { tree with root := tree.root.lasting tree.here, strayErrors := [] }

/-- What is known of the button of every field, the mark that it carries included. -/
def buttons (tree : Tree) : List (Path × Option Button) := tree.root.views Field.button tree.here

section Lasting

variable (tree : Tree)

theorem markings_lasting : tree.lasting.markings = tree.markings :=
  Node.markings_map false tree.here tree.here tree.root

theorem steppers_lasting : tree.lasting.steppers = tree.steppers :=
  Node.steppers_map false tree.here tree.here tree.root

theorem openDialogs_lasting : tree.lasting.openDialogs = tree.openDialogs :=
  @Node.openDialogs_map (fun _ => Form.lasting) _ (fun _ _ => rfl) false tree.here tree.here tree.root

theorem buttons_lasting : tree.lasting.buttons = tree.buttons := by
  refine Node.views_map (fun place content => ?_) (fun _ => Frame.asBuilt) tree.here tree.root
  refine (Member.views_mapAll id ?_ Group.asBuilt place content.members).trans (List.map_id _)
  intro entry
  rfl

/-- A reset touches nothing that lasts. -/
theorem lasting_restore : tree.restore.lasting = tree.lasting := by
  have root : tree.restore.root.lasting tree.here = tree.root.lasting tree.here := by
    refine (Node.lasting_latch tree.here _ _).trans ?_
    refine (Node.lasting_refresh tree.here _ _).trans ?_
    exact tree.root.lasting_reset tree.here
  exact congrArg (fun root => { tree with root, strayErrors := [] }) root

end Lasting

/-! ## Nothing is left to restore -/

/-- The root of a restored tree is left as it is by a reset. -/
theorem reset_restore (tree : Tree) : tree.restore.root.reset = tree.restore.root := by
  refine (Node.reset_latch tree.here _ _).trans (congrArg (Node.latch _ _) ?_)
  refine (Node.reset_refresh tree.here _ _).trans (congrArg (Node.refresh _ _) ?_)
  exact tree.root.reset_reset

/-- A second reset changes nothing. -/
theorem AtRest.restore_restore {tree : Tree} (rest : tree.AtRest) : tree.restore.restore = tree.restore := by
  have settled := rest.restore
  have same : { tree.restore with root := tree.restore.root.reset, strayErrors := [] } = tree.restore := by
    rw [reset_restore]
    rfl
  rw [Tree.restore, same, settled.refreshed, settled.latched]

/-! ## Resets -/

/-- A reset restores what it promises, and nothing else. -/
structure Resets (tree : Tree) (cycle : Cycle) : Prop where
  /-- Every field holds the value with which it came up. -/
  values : ∀ path field, (path, field) ∈ cycle.tree.fields → ∀ value, tree.Began path value ↔ value = field.value
  untouched : ∀ path field, (path, field) ∈ cycle.tree.fields → field.validity = .untouched
  /-- No form and no fieldset shows messages, and no message is left that belongs to no place. -/
  errors : ∀ path group, (path, group) ∈ cycle.tree.groups → group.errors = []
  strayErrors : cycle.tree.strayErrors = []
  /-- No inducer has fired, and there is nothing else to report. -/
  silent : cycle.report = .empty
  /-- The same nodes and the same fields stand in the same order, and siblings carry their marks. -/
  nodePlaces : cycle.tree.nodePlaces = tree.nodePlaces
  fieldPlaces : cycle.tree.fieldPlaces = tree.fieldPlaces
  markings : cycle.tree.markings = tree.markings
  openDialogs : cycle.tree.openDialogs = tree.openDialogs
  steppers : cycle.tree.steppers = tree.steppers
  buttons : cycle.tree.buttons = tree.buttons
  response : cycle.tree.response = tree.response
  /-- Nothing differs but values, messages, flags and latches. -/
  lasting : cycle.tree.lasting = tree.lasting
  /-- Flags and latches agree with the restored values. -/
  coherent : cycle.tree.Coherent
  /-- A second reset changes nothing. -/
  again : cycle.tree.reset = .ok (.start cycle.tree)

theorem reset_of_idle {tree : Tree} (idle : tree.isBusy = false) : tree.reset = .ok (.start tree.restore) := by
  rw [reset, idle, if_neg Bool.false_ne_true]

theorem after_reset {tree : Tree} (idle : tree.isBusy = false) : tree.after .reset = tree.restore :=
  @after_of_ok tree .reset _ (reset_of_idle idle)

/-- The value that a field comes to hold in a reset is the one with which it came up. -/
theorem Reachable.began_restore {tree : Tree} (reachable : tree.Reachable) (idle : tree.isBusy = false) {path : Path}
    {field : Field} (listed : (path, field) ∈ tree.restore.fields) {value : Value} :
    tree.Began path value ↔ value = field.value := by
  have after := after_reset idle
  have restored : field.reset = field := (Node.reset_eq_self tree.reset_restore).1 (path, field) listed
  have lands : tree.landing .reset path = some path := congrFun (tree.landing_of_stays .reset nofun nofun) path
  have onward {value : Value} (began : tree.Began path value) : value = field.value := by
    have later : tree.restore.Began path value := after ▸ began.after lands
    rw [(after ▸ reachable.after .reset : tree.restore.Reachable).began_iff listed] at later
    exact later.symm.trans (congrArg Field.value restored)
  refine ⟨onward, ?_⟩
  rintro rfl
  obtain ⟨before, there, -⟩ := tree.does_restore.exists_origin listed
  obtain ⟨value, began⟩ := reachable.exists_began there
  exact onward began ▸ began

/-- A tree that waits for no outcome can be reset, and the reset restores what it promises and nothing else. -/
theorem Reachable.resets {tree : Tree} (reachable : tree.Reachable) (idle : tree.isBusy = false) :
    ∃ cycle, tree.reset = .ok cycle ∧ tree.Resets cycle := by
  have done := reset_of_idle idle
  have after := after_reset idle
  have same := tree.lasting_restore
  have restored := @Node.reset_eq_self tree.here _ tree.reset_restore
  refine ⟨.start tree.restore, done, {
    values := fun path field listed value => reachable.began_restore idle listed
    untouched := fun path field listed => ?_
    errors := fun path group listed => ?_
    strayErrors := rfl
    silent := rfl
    nodePlaces := tree.restore_moves.nodePlaces
    fieldPlaces := tree.restore_moves.fieldPlaces
    markings := ?_
    openDialogs := ?_
    steppers := ?_
    buttons := ?_
    response := rfl
    lasting := same
    coherent := after ▸ (reachable.after .reset).coherent
    again := ?_ }⟩
  · exact (congrArg Field.validity (restored.1 (path, field) listed)).symm
  · exact (congrArg Group.errors (restored.2 (path, group) listed)).symm
  · exact (markings_lasting _).symm.trans ((congrArg Tree.markings same).trans (markings_lasting tree))
  · exact (openDialogs_lasting _).symm.trans ((congrArg Tree.openDialogs same).trans (openDialogs_lasting tree))
  · exact (steppers_lasting _).symm.trans ((congrArg Tree.steppers same).trans (steppers_lasting tree))
  · exact (buttons_lasting _).symm.trans ((congrArg Tree.buttons same).trans (buttons_lasting tree))
  · have again := @reset_of_idle tree.restore idle
    rwa [reachable.atRest.restore_restore] at again

/-- A gift was wrapped in red. A reset takes gift and color back, but leaves the dialog of the wrapping open and
fires no inducer. -/
theorem resets_wrappings : ∃ (tree : Tree) (cycle : Cycle), tree.Reachable ∧ tree.isBusy = false ∧
    tree.reset = .ok cycle ∧ tree.Resets cycle ∧
      tree.fields.map (fun entry => entry.2.value) = [.text "yes", .text "red", .text ""] ∧
        cycle.tree.fields.map (fun entry => entry.2.value) = [.text "", .text "", .text ""] ∧
          cycle.tree.openDialogs = [⟨["wrapping"]⟩] := by
  have runs : ((Tree.mount wrappings none).toOption.map fun start =>
      let wrapped := start.after (.setValue ⟨["order", "gift"]⟩ (.text "yes"))
      let colored := wrapped.after (.setValue ⟨["wrapping", "color"]⟩ (.text "red"))
      (colored.isBusy, colored.fields.map (fun entry => entry.2.value),
        colored.restore.fields.map (fun entry => entry.2.value), colored.restore.openDialogs)) =
      some (false, [.text "yes", .text "red", .text ""], [.text "", .text "", .text ""],
        [⟨["wrapping"]⟩]) := by decide +kernel
  obtain ⟨start, mounted, same⟩ := Option.map_eq_some_iff.mp runs
  rw [toOption_eq_some] at mounted
  obtain ⟨idle, same⟩ := Prod.mk.inj same
  obtain ⟨before, same⟩ := Prod.mk.inj same
  obtain ⟨values, stillOpen⟩ := Prod.mk.inj same
  have reachable := Reachable.after (.after (.mounted mounted) (.setValue ⟨["order", "gift"]⟩ (.text "yes")))
    (.setValue ⟨["wrapping", "color"]⟩ (.text "red"))
  obtain ⟨cycle, done, resets⟩ := reachable.resets idle
  obtain rfl : cycle = .start _ := (reset_eq_ok done).2
  exact ⟨_, _, reachable, idle, done, resets, before, values, stillOpen⟩

end Formwork.Tree
