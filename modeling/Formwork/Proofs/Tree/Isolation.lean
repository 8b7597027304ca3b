import Formwork.Proofs.Tree.Sparing

/-!
# Isolated siblings

A self-contained sibling of a tree at rest is at rest by itself (`Tree.AtRest.alone`), and so it is spared by
everything that happens outside of it: by values that are set, by buttons that are activated (`Cycle.Spares.run`), and
by siblings that come and go, which give it another index at most (`Tree.spares_of_renumbered`). It keeps its values,
flags, latches, marks and dialogs, and nothing is induced beneath it (`Tree.Reachable.isolates`).
-/

set_option autoImplicit false

namespace Formwork

open Formwork.Text

theorem Path.startsWith_eq_false_iff {path other : Path} :
    path.startsWith other = false ↔ ∀ rest, path ≠ other.extend rest := by
  rw [Bool.eq_false_iff, Ne, Path.startsWith, List.isPrefixOf_iff_prefix, ← not_exists, not_congr]
  constructor
  · rintro ⟨rest, same⟩
    exact ⟨⟨rest⟩, congrArg Path.mk same.symm⟩
  · rintro ⟨rest, rfl⟩
    exact ⟨rest.segments, rfl⟩

/-! ## Siblings that are alike -/

namespace Sibling

/-- Two siblings hold the same values, flags, latches and pristine marks, and the same dialogs are open in them. -/
structure Alike (first second : Sibling) : Prop where
  pristine : first.isPristine = second.isPristine
  state : Tree.SameState first.alone second.alone
  dialogs : (first.alone.forms.map fun entry => (entry.1, entry.2.dialog.map Dialog.isOpen)) =
    second.alone.forms.map fun entry => (entry.1, entry.2.dialog.map Dialog.isOpen)

/-- Siblings that differ in messages only are alike. -/
theorem Alike.of_muted {first second : Sibling} (same : first.muted = second.muted) : first.Alike second := by
  have body : first.body.redraw Form.clearErrors id = second.body.redraw Form.clearErrors id := by
    rw [← body_muted, same, body_muted]
  have muted (sibling : Sibling) : sibling.body.redraw Form.muted id =
      (sibling.body.redraw Form.clearErrors id).redraw Form.shut id :=
    (@Node.redraw_redraw Form.clearErrors id Form.shut id sibling.body).symm
  have alike : Tree.MutedAlike first.alone second.alone := by
    refine ⟨rfl, ?_⟩
    change first.body.redraw _ _ = second.body.redraw _ _
    rw [muted, body, muted]
  have dialogs (sibling : Sibling) :
      (sibling.alone.forms.map fun entry => (entry.1, entry.2.dialog.map Dialog.isOpen)) =
        ((sibling.body.redraw Form.clearErrors id).forms false .root).map
          fun entry => (entry.1, entry.2.dialog.map Dialog.isOpen) := by
    rw [Node.forms_redraw, List.map_map]
    rfl
  refine ⟨?_, alike.sameState, ?_⟩
  · have pristine : first.muted.isPristine = second.muted.isPristine := by rw [same]
    exact pristine
  · rw [dialogs, body, dialogs]

end Sibling

/-! ## Siblings of a tree at rest -/

namespace Tree

variable {tree : Tree} {sibling : Sibling} {series : Path} {index : Nat}

section Rest

variable (regular : tree.root.Regular) (rest : tree.AtRest) (found : tree.sibling? series index = some sibling)
include regular found

/-- A change of everything that leaves the tree as it is leaves its siblings as they are. -/
theorem map_body_of_root {onForm : Path → Form → Form} {onFrame : Path → Frame → Frame}
    (plain : onFrame (series.join (indexText index)) ⟨.plain, none⟩ = ⟨.plain, none⟩)
    (fixed : tree.root.map false onForm onFrame tree.here = tree.root) :
    sibling.body.map false onForm onFrame (series.join (indexText index)) = sibling.body := by
  obtain ⟨segments, leads, has⟩ := (sibling?_eq_some_iff regular).mp found
  have changed := has.map onForm onFrame tree.here
  rw [fixed, ← below?_eq_some_iff.mp leads] at changed
  rw [← Sibling.body_map plain, ← has.unique regular changed]

include rest

theorem AtRest.spares : tree.Spares sibling series index :=
  ⟨regular, ⟨sibling, found, rfl⟩, fun _ => fires_of_quiet rest.quiet _⟩

/-- A self-contained sibling of a tree at rest is at rest by itself. -/
theorem AtRest.alone (contained : sibling.SelfContained) : sibling.alone.AtRest := by
  have same := (rest.spares regular found).sameTruths contained
  have derived := Node.refresh_congr same
  have remembered := Node.latch_congr same
  rw [Path.extend_root] at derived remembered
  refine ⟨rfl, refresh_eq_self_iff.mpr ?_, latch_eq_self_iff.mpr ?_⟩
  · exact derived.symm.trans (map_body_of_root regular found rfl (refresh_eq_self_iff.mp rest.refreshed))
  · exact remembered.symm.trans (map_body_of_root regular found rfl (latch_eq_self_iff.mp rest.latched))

end Rest

/-! ## Siblings under other indices -/

theorem sibling?_of_node? {frame : Frame} {template : List (String × Node)} {siblings : List Sibling}
    (stands : tree.node? series = some (.series frame template siblings)) (index : Nat) :
    tree.sibling? series index = siblings[index]? := by
  rw [sibling?, stands]

/-- A sibling that comes under another index beneath its series is spared. -/
theorem spares_of_renumbered (regular : tree.root.Regular) (quiet : tree.firing = none) {frame other : Frame}
    {template copies : List (String × Node)} {siblings others : List Sibling}
    (stands : tree.node? series = some (.series frame template siblings))
    (follows : (Node.series other copies others).Follows (.series frame template siblings))
    (there : others[index]? = some sibling) :
    (tree.change series (Node.modify fun _ => .series other copies others)).Spares sibling series index := by
  refine ⟨regular.follows (root_follows_modify stands follows), ⟨sibling, ?_, rfl⟩, fun rest => ?_⟩
  · rw [sibling?_of_node? (node?_replaced regular stands follows), there]
  · exact fires_of_quiet ((tree.firing_change _ _).trans quiet) _

end Tree

/-! ## Operations in progress -/

namespace Cycle

variable {sibling : Sibling} {series : Path} {index : Nat} {cycle : Cycle}

/-- An operation in progress has spared a sibling and has induced nothing beneath it. -/
structure Spares (sibling : Sibling) (series : Path) (index : Nat) (cycle : Cycle) : Prop where
  tree : cycle.tree.Spares sibling series index
  silent : ∀ event ∈ cycle.report.induced, ∀ rest, event.path ≠ (series.join (indexText index)).extend rest

/-- An operation leaves a sibling, which stands under an index then, as it was, and induces nothing beneath it. -/
structure Preserves (sibling : Sibling) (series : Path) (index : Nat) (cycle : Cycle) : Prop where
  stands : ∃ later, cycle.tree.sibling? series index = some later ∧ later.Alike sibling
  silent : ∀ event ∈ cycle.report.induced, event.path.startsWith (series.join (indexText index)) = false

namespace Spares

theorem preserves (spares : cycle.Spares sibling series index) : cycle.Preserves sibling series index := by
  obtain ⟨now, found, same⟩ := spares.tree.has
  refine ⟨⟨now, found, .of_muted same⟩, fun event induced => ?_⟩
  exact Path.startsWith_eq_false_iff.mpr (spares.silent event induced)

/-- Before anything has been induced, it is the tree that matters. -/
theorem of_tree (spares : cycle.tree.Spares sibling series index) (nothing : cycle.report.induced = []) :
    cycle.Spares sibling series index := by
  refine ⟨spares, fun event induced => ?_⟩
  rw [nothing] at induced
  cases induced

variable (contained : sibling.SelfContained) (calm : sibling.alone.AtRest)
include contained calm

theorem settle (spares : cycle.Spares sibling series index) : cycle.settle.1.Spares sibling series index := by
  obtain ⟨tree, silent⟩ := settle_spares contained calm spares.tree
  refine ⟨tree, fun event induced => ?_⟩
  rw [induced_settle, List.mem_append] at induced
  exact induced.elim (spares.silent event) (silent event)

variable {button : Path} (outside : ∀ rest, button ≠ (series.join (indexText index)).extend rest)
include outside

/-- An activation of a button outside of the sibling spares it. -/
theorem activate (spares : cycle.Spares sibling series index) (remaining reject : List Call)
    (arguments : List Argument) :
    (cycle.perform button remaining reject (.activate arguments)).1.Spares sibling series index := by
  have fired : (cycle.activated button arguments).Spares sibling series index := by
    refine ⟨spares.tree.fire fun own fires => ?_, spares.silent⟩
    cases fires
    exact outside
  exact fired.settle contained calm

/-- A chain of activations of a button outside of the sibling spares it. -/
theorem runChain (spares : cycle.Spares sibling series index) (reject : List Call) {chain : List Call}
    (activates : ∀ call ∈ chain, ∃ arguments, call = .activate arguments) :
    (cycle.runChain button reject chain).1.Spares sibling series index := by
  induction chain generalizing cycle with
  | nil => exact spares
  | cons call rest ih =>
      obtain ⟨⟨arguments, rfl⟩, others⟩ := List.forall_mem_cons.mp activates
      have performed := spares.activate contained calm outside rest reject arguments
      rw [Cycle.runChain]
      split
      · rename_i after same
        rw [same] at performed
        exact ih performed others
      · exact performed

/-- Two chains of activations spare the sibling, whether the first one fails or not. -/
theorem run (spares : cycle.Spares sibling series index) {chain reject : List Call}
    (activates : ∀ call ∈ chain ++ reject, ∃ arguments, call = .activate arguments) :
    (cycle.run button chain reject).Spares sibling series index := by
  obtain ⟨first, second⟩ := List.forall_mem_append.mp activates
  have went := spares.runChain contained calm outside reject first
  unfold Cycle.run
  split
  · rename_i after same
    rw [same] at went
    exact went.runChain contained calm outside [] second
  · rename_i after _ _ same
    rw [same] at went
    exact went

end Spares

end Cycle

/-! ## Operations -/

namespace Tree

variable {tree : Tree} {sibling : Sibling} {series : Path} {index : Nat}

/-- Whatever is set, clicked, added or removed outside of a sibling, the sibling is left as it is. -/
structure Isolates (tree : Tree) (sibling : Sibling) (series : Path) (index : Nat) : Prop where
  /-- A value is set outside of the sibling. -/
  onSet : ∀ path value cycle, tree.setValue path value = .ok cycle →
    path.startsWith (series.join (indexText index)) = false → cycle.Preserves sibling series index
  /-- A button outside of the sibling is clicked whose chains do nothing but activate it. -/
  onClick : ∀ path cycle field button, tree.click path = .ok cycle → tree.field? path = some field →
    field.button = some button → path.startsWith (series.join (indexText index)) = false →
    (∀ call ∈ button.pipeline.success ++ button.pipeline.reject, ∃ arguments, call = .activate arguments) →
    cycle.Preserves sibling series index
  /-- A sibling is added in front of it or behind it. -/
  onAdd : ∀ behind cycle, tree.addSibling series behind = .ok cycle →
    cycle.Preserves sibling series (behind.elim index fun other => if index ≤ other then index else index + 1)
  /-- Another sibling is removed. -/
  onRemove : ∀ other cycle, tree.removeSibling series other = .ok cycle → other ≠ index →
    cycle.Preserves sibling series (if index < other then index else index - 1)

/-- A self-contained sibling of a reachable tree is isolated from everything outside of it. -/
theorem Reachable.isolates (reachable : tree.Reachable) (found : tree.sibling? series index = some sibling)
    (contained : sibling.SelfContained) : tree.Isolates sibling series index := by
  have regular := reachable.regular
  have rest := reachable.atRest
  have calm := rest.alone regular found contained
  have spares := rest.spares regular found
  have settled {changed : Tree} {report : Report} {position : Nat} (nothing : report.induced = [])
      (spared : changed.Spares sibling series position) :
      (Cycle.mk changed report).settle.1.Preserves sibling series position :=
    ((@Cycle.Spares.of_tree _ _ _ ⟨changed, report⟩ spared nothing).settle contained calm).preserves
  constructor
  case onSet =>
    intro path value cycle set outside
    obtain ⟨-, -, rfl⟩ := setValue_eq_ok set
    exact settled rfl (spares.store (Path.startsWith_eq_false_iff.mp outside) value)
  case onClick =>
    intro path cycle field button clicked stands isButton outside activates
    obtain ⟨-, other, own, foundField, ownButton, -, -, rfl⟩ := click_eq_ok clicked
    cases foundField.symm.trans stands
    cases ownButton.symm.trans isButton
    have start : (Cycle.start tree).Spares sibling series index := .of_tree spares rfl
    exact (start.run contained calm (Path.startsWith_eq_false_iff.mp outside) activates).preserves
  case onAdd =>
    intro behind cycle added
    obtain ⟨-, node, extended, position, stands, grown, rfl⟩ := addSibling_eq_ok added
    have follows := Node.follows_addSibling grown
    obtain ⟨frame, template, siblings, rfl, rfl, rfl, -⟩ := Node.addSibling_eq_ok grown
    rw [sibling?_of_node? stands] at found
    refine settled rfl (spares_of_renumbered regular rest.quiet stands follows (getElem?_added found ?_))
    cases behind with
    | none => rfl
    | some other => simp only [Option.elim_some, openGap, Nat.lt_succ_iff]
  case onRemove =>
    intro other cycle removed apart
    obtain ⟨-, node, reduced, stands, shrunk, rfl⟩ := removeSibling_eq_ok removed
    have follows := Node.follows_removeSibling shrunk
    obtain ⟨frame, template, siblings, rfl, rfl, -⟩ := Node.removeSibling_eq_ok shrunk
    rw [sibling?_of_node? stands] at found
    exact settled rfl (spares_of_renumbered regular rest.quiet stands follows
      (getElem?_closeGap found (if_neg apart.symm)))

/-- Two cups of coffee, each with a dialog for its flavor, which opens once the cup is to be flavored. -/
def cups : Blueprint where
  namespaceText := none
  root := .collection .plain
    [("cups", .collection { CollectionPlan.plain with extraSiblings := some 2 }
      [("coffee", .form ⟨none, none, .absent⟩ none [("flavored", .field .standard)]),
        ("flavor", .form ⟨none, none, { Conditions.absent with openWhen := some "..coffee.flavored" }⟩ (some .plain)
          [("syrup", .field .standard)])])]
  distinct := by decide

/-- The dialog of the second cup is open. A cup that is added in front of it makes it the third one, which has its
dialog still open and does not open it again. -/
theorem isolates_cups : ∃ (tree : Tree) (flavored grown : Cycle) (cup : Sibling), Tree.mount cups none = .ok tree ∧
    tree.setValue ⟨["cups", "1", "coffee", "flavored"]⟩ (.text "yes") = .ok flavored ∧
      flavored.report.induced = [⟨.opens, ⟨["cups", "1", "flavor"]⟩⟩] ∧
        flavored.tree.sibling? ⟨["cups"]⟩ 1 = some cup ∧ cup.SelfContained ∧
          flavored.tree.addSibling ⟨["cups"]⟩ (some 0) = .ok grown ∧ grown.Preserves cup ⟨["cups"]⟩ 2 := by
  have grows : ((Tree.mount cups none).toOption.bind fun tree =>
      (tree.setValue ⟨["cups", "1", "coffee", "flavored"]⟩ (.text "yes")).toOption.bind fun flavored =>
        (flavored.tree.sibling? ⟨["cups"]⟩ 1).bind fun cup =>
          (flavored.tree.addSibling ⟨["cups"]⟩ (some 0)).toOption.map fun _ =>
            (flavored.report.induced, decide cup.SelfContained)) =
      some ([⟨.opens, ⟨["cups", "1", "flavor"]⟩⟩], true) := by decide +kernel
  obtain ⟨tree, mounted, grows⟩ := Option.bind_eq_some_iff.mp grows
  obtain ⟨flavored, set, grows⟩ := Option.bind_eq_some_iff.mp grows
  obtain ⟨cup, found, grows⟩ := Option.bind_eq_some_iff.mp grows
  obtain ⟨grown, added, same⟩ := Option.map_eq_some_iff.mp grows
  rw [toOption_eq_some] at mounted set added
  obtain ⟨induced, contained⟩ := Prod.mk.inj same
  have after : tree.after (.setValue ⟨["cups", "1", "coffee", "flavored"]⟩ (.text "yes")) = flavored.tree :=
    after_of_ok set
  have reachable : flavored.tree.Reachable := after ▸ .after (.mounted mounted) _
  have isolates := reachable.isolates found (of_decide_eq_true contained)
  exact ⟨tree, flavored, grown, cup, mounted, set, induced, found, of_decide_eq_true contained, added,
    isolates.onAdd (some 0) grown added⟩

end Tree

end Formwork
