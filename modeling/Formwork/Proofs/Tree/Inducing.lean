import Formwork.Proofs.Node.Inducers
import Formwork.Proofs.Tree.Building
import Formwork.Proofs.Tree.Reading

/-!
# Which inducers fire

An inducer fires when its condition turns from false to true. In a tree at rest every inducer remembers
the truth of its condition, so an inducer that rises when the tree is settled was false before the
operation and is true after the change that came first (`Tree.rising_of_rest`). The inducers that rise are
carried out one after the other, and nothing they do makes another one fire: what is reported is the list
that was drawn up before the first of them was carried out (`Cycle.induced_settle`).
-/

set_option autoImplicit false

namespace Formwork

/-! ## The inducers of a tree -/

namespace Tree

variable (tree : Tree)

/-- All inducers with the paths of the forms and collections that declare them, in the order of rendering. -/
def inducers : List (Path × Inducer) := tree.root.inducers tree.here

/-- The inducers whose condition is false by one lookup and true by another one, as they are reported. -/
def turned (before after : Lookup) : List InducedEvent :=
  (tree.inducers.filter fun (place, inducer) => !inducer.holds place before && inducer.holds place after).map
    fun (place, inducer) => inducer.event place

/-- What is reported of the inducers that fire in an idle tree. -/
structure EdgeTriggered : Prop where
  /-- Before the operation a field with a value reads as its value, and no button fires. -/
  values : ∀ path, tree.lookup path = (tree.field? path).map (Field.reading false)
  /-- A collection comes before what stands beneath it. -/
  outerFirst : tree.nodes.Pairwise fun first second => second.1 ∉ first.1.ancestors
  /-- A form is opened, closed and activated in this order. -/
  kindsInOrder : ∀ path node, (path, node) ∈ tree.nodes →
    (Inducer.kinds node.ownInducers).Sublist [.opens, .closes, .activates]
  /-- The inducers of a tree are those of its nodes, one node after the other. -/
  inNodes : tree.inducers = tree.nodes.flatMap fun entry => entry.2.ownInducers.map (entry.1, ·)
  /-- No inducer is reported twice. -/
  once : ∀ before after, (tree.turned before after).Nodup
  /-- A value that is set fires the inducers that it turns true. -/
  onSet : ∀ path value cycle field, tree.setValue path value = .ok cycle → tree.field? path = some field →
    cycle.report.induced = tree.turned tree.lookup
      (Function.update tree.lookup path (some (.value (field.plan.widget.fit value))))
  /-- A click that does nothing but activate its button fires the inducers that the button turns true. -/
  onActivate : ∀ path cycle field button arguments, tree.click path = .ok cycle →
    tree.field? path = some field → field.button = some button →
    button.pipeline.success = [.activate arguments] → button.pipeline.reject = [] →
    cycle.report.induced = tree.turned tree.lookup (Function.update tree.lookup path (some (.button true)))

variable {tree}

/-! ## Latches -/

/-- In a tree at rest every inducer remembers the truth of its condition. -/
theorem AtRest.latched_eq (rest : tree.AtRest) {place : Path} {inducer : Inducer}
    (listed : (place, inducer) ∈ tree.inducers) : inducer.latched = inducer.holds place tree.lookup := by
  obtain ⟨-, -, forms, frames⟩ := atRest_iff.mp rest
  obtain ⟨node, stands, own⟩ := Node.mem_inducers_iff.mp listed
  cases node with
  | form content =>
      have here : (place, content) ∈ tree.forms := List.mem_filterMap.mpr ⟨_, stands, rfl⟩
      exact Form.latch_eq_self_iff.mp (forms _ here) inducer own
  | collection frame progress members =>
      have here : (place, frame) ∈ tree.frames := List.mem_filterMap.mpr ⟨_, stands, rfl⟩
      exact Frame.latch_eq_self_iff.mp (frames _ here) inducer (Option.mem_toList.mp own)
  | series frame template siblings =>
      have here : (place, frame) ∈ tree.frames := List.mem_filterMap.mpr ⟨_, stands, rfl⟩
      exact Frame.latch_eq_self_iff.mp (frames _ here) inducer (Option.mem_toList.mp own)

/-- The inducers that rise after a change of a tree at rest are those whose condition the change turned
true. -/
theorem rising_of_rest {changed : Tree} (rest : tree.AtRest) (same : changed.inducers = tree.inducers) :
    changed.rising = tree.turned tree.lookup changed.lookup := by
  rw [rising, Node.rising_eq, turned]
  change (changed.inducers.filter _).map _ = _
  rw [same]
  refine congrArg (List.map _) (List.filter_congr fun entry listed => ?_)
  have latched := rest.latched_eq listed
  rw [Inducer.rises, latched, Bool.and_comm]
  rfl

/-! ## Changes that keep the inducers -/

theorem inducers_refresh (tree : Tree) : tree.refresh.inducers = tree.inducers :=
  Node.inducers_refresh _ _ _ tree.root

theorem inducers_change {place : Path} {edit : List String → Node → Node}
    (keeps : ∀ segments path (node : Node), (edit segments node).inducers path = node.inducers path) :
    (tree.change place edit).inducers = tree.inducers := by
  unfold change
  split
  · exact keeps _ _ _
  · rfl

theorem inducers_store (tree : Tree) (place : Path) (value : Value) :
    (tree.store place value).inducers = tree.inducers := by
  rw [store, inducers_change Node.inducers_touch, inducers_change (Node.inducers_modifyField _)]

end Tree

/-! ## Reports -/

namespace Cycle

theorem report_execute (event : InducedEvent) (cycle : Cycle) :
    (cycle.execute event).1.report.induced = cycle.report.induced := by
  unfold execute
  split
  · rfl
  · split
    · rfl
    · rfl
  · split
    · rfl
    · split
      · rename_i navigated
        obtain ⟨_, _, _, _, -, -, same⟩ := cycle.navigate_eq_ok navigated
        rw [same]
      · rfl

theorem induced_executeAll (events : List InducedEvent) (cycle : Cycle) :
    (executeAll events cycle).1.report.induced = cycle.report.induced ++ events := by
  induction events generalizing cycle with
  | nil => exact (List.append_nil _).symm
  | cons event rest ih =>
      rw [executeAll_cons]
      refine (ih _).trans ?_
      rw [reported, report_execute, List.append_assoc]
      rfl

/-- Settling reports the inducers that have risen, and no other ones. -/
theorem induced_settle (cycle : Cycle) : cycle.settle.1.report.induced = cycle.report.induced ++ cycle.risen :=
  induced_executeAll cycle.risen cycle.induced

/-- Settling after a change of a tree at rest that keeps the inducers reports those that the change turned
true. -/
theorem induced_settle_of_rest {tree : Tree} {cycle : Cycle} (rest : tree.AtRest)
    (same : cycle.tree.inducers = tree.inducers) :
    cycle.settle.1.report.induced = cycle.report.induced ++ tree.turned tree.lookup cycle.tree.lookup := by
  have refreshed := (Tree.inducers_refresh cycle.tree).trans same
  rw [induced_settle, risen, Tree.rising_of_rest rest refreshed, Tree.lookup_refresh]

/-- A chain that does nothing but activate its button ends when the tree is settled. -/
theorem run_activate (button : Path) (arguments : List Argument) (cycle : Cycle) :
    cycle.run button [.activate arguments] [] = (cycle.activated button arguments).settle.1 := by
  have performed : cycle.perform button [] [] (.activate arguments) =
      ending (cycle.activated button arguments).settle := rfl
  rw [run, runChain, performed, ending]
  cases (cycle.activated button arguments).settle.2 with
  | true => rfl
  | false => rfl

end Cycle

namespace Tree

variable {tree : Tree}

theorem induced_setValue (regular : tree.root.Regular) (rest : tree.AtRest) {path : Path} {value : Value}
    {cycle : Cycle} {field : Field} (done : tree.setValue path value = .ok cycle)
    (stands : tree.field? path = some field) :
    cycle.report.induced = tree.turned tree.lookup
      (Function.update tree.lookup path (some (.value (field.plan.widget.fit value)))) := by
  obtain ⟨-, ⟨other, found, isValue, -, -⟩, rfl⟩ := setValue_eq_ok done
  obtain rfl := Option.some.inj (found.symm.trans stands)
  rw [Cycle.induced_settle_of_rest rest (tree.inducers_store path value), lookup_store regular stands isValue]
  rfl

theorem induced_activate (regular : tree.root.Regular) (rest : tree.AtRest) {path : Path} {cycle : Cycle}
    {field : Field} {button : Button} {arguments : List Argument} (done : tree.click path = .ok cycle)
    (stands : tree.field? path = some field) (isButton : field.button = some button)
    (success : button.pipeline.success = [.activate arguments]) (reject : button.pipeline.reject = []) :
    cycle.report.induced = tree.turned tree.lookup (Function.update tree.lookup path (some (.button true))) := by
  obtain ⟨-, other, own, found, ownButton, -, -, rfl⟩ := click_eq_ok done
  have active : field.isButton = true := by rw [Field.isButton, isButton]; rfl
  have settled := @Cycle.induced_settle_of_rest tree ((Cycle.start tree).activated path arguments) rest rfl
  have read := lookup_fire regular stands active rest.quiet (arguments.map (tree.argumentText path))
  cases found.symm.trans stands
  cases ownButton.symm.trans isButton
  rw [success, reject, Cycle.run_activate, settled]
  exact congrArg (tree.turned tree.lookup) read

/-- In an idle reachable tree exactly the inducers fire that a value or a button turns true, each once, in
the order of rendering. -/
theorem Reachable.edgeTriggered (reachable : tree.Reachable) : tree.EdgeTriggered where
  values path := by
    rw [lookup_eq reachable.regular, fires_of_quiet reachable.atRest.quiet]
  outerFirst := Node.outerFirst reachable.regular tree.here
  kindsInOrder path node listed := by
    obtain ⟨segments, -, stands⟩ := Node.mem_nodes_iff.mp listed
    exact Node.kinds_sublist ((reachable.built Node.kinds_byBuilding).stands stands)
  inNodes := Node.inducers_eq tree.here tree.root
  once before after := by
    have nodup := Node.nodup_events reachable.regular (reachable.built Node.kinds_byBuilding) tree.here
    exact nodup.sublist ((List.filter_sublist ..).map _)
  onSet path value cycle field done stands := induced_setValue reachable.regular reachable.atRest done stands
  onActivate path cycle field button arguments done stands isButton success reject :=
    induced_activate reachable.regular reachable.atRest done stands isButton success reject

/-- An order whose wrapping is chosen in a dialog, which opens once the order is a gift. -/
def gifts : Blueprint where
  namespaceText := some "shop"
  root := .collection .plain
    [("order", .form ⟨none, none, .absent⟩ none [("gift", .field .standard)]),
      ("wrapping", .form ⟨none, none, { Conditions.absent with openWhen := some "order.gift" }⟩ none
        [("color", .field .standard)])]
  distinct := by decide

/-- Making the order a gift fires the inducer of the dialog, and nothing else. -/
theorem edgeTriggered_gifts : ∃ tree cycle, Tree.mount gifts none = .ok tree ∧ tree.EdgeTriggered ∧
    tree.setValue ⟨["shop", "order", "gift"]⟩ (.text "yes") = .ok cycle ∧
      cycle.report.induced = [⟨.opens, ⟨["shop", "wrapping"]⟩⟩] := by
  have fires : ((Tree.mount gifts none).toOption.bind fun tree =>
      (tree.setValue ⟨["shop", "order", "gift"]⟩ (.text "yes")).toOption.map fun cycle => cycle.report.induced) =
        some [⟨.opens, ⟨["shop", "wrapping"]⟩⟩] := by decide +kernel
  obtain ⟨tree, mounted, set⟩ := Option.bind_eq_some_iff.mp fires
  obtain ⟨cycle, done, induced⟩ := Option.map_eq_some_iff.mp set
  rw [toOption_eq_some] at mounted done
  exact ⟨tree, cycle, mounted, Reachable.edgeTriggered (.mounted mounted), done, induced⟩

end Tree

end Formwork
