import Formwork.Proofs.Tree.Deeds
import Formwork.Proofs.Tree.Paths
import Formwork.Proofs.Tree.Rest

/-!
# Values change for a reason

A run from one tree to another does some deeds if every field holds afterwards what the deeds make of what it
held before (`Tree.Does`). All changes of flags, messages, latches, steps and dialogs do none.
-/

set_option autoImplicit false

namespace Formwork

open Relation

namespace Tree

variable {tree after : Tree}

/-- What the fields of a tree hold. -/
def holdings (tree : Tree) : List (Path × Holding) := tree.root.holdings tree.here

/-- The same fields stand at the same places, and each holds what some deeds make of what it held. -/
def Does (deeds : List Deed) (tree after : Tree) : Prop :=
  after.holdings = tree.holdings.map fun entry => (entry.1, Deed.replay deeds entry.1 entry.2)

theorem Does.of_eq (same : after.holdings = tree.holdings) : Does [] tree after := by
  rw [Does, same]
  exact (List.map_id _).symm

theorem Does.eq (does : Does [] tree after) : after.holdings = tree.holdings :=
  Eq.trans does (List.map_id _)

theorem Does.trans {first second : List Deed} {middle : Tree} (one : Does first tree middle)
    (two : Does second middle after) : Does (first ++ second) tree after := by
  rw [Does, two, one, List.map_map]
  exact List.map_congr_left fun entry _ => by rw [Deed.replay_append]; rfl

/-- What follows without a deed. -/
theorem Does.keep {deeds : List Deed} {middle : Tree} (does : Does deeds tree middle)
    (same : after.holdings = middle.holdings) : Does deeds tree after := by
  rw [Does, same, does]

theorem exists_of_mem_holdings {entry : Path × Holding} (held : entry ∈ tree.holdings) :
    ∃ segments, entry.1 = tree.here.extend ⟨segments⟩ := by
  obtain ⟨⟨place, field⟩, listed, rfl⟩ := List.mem_map.mp held
  obtain ⟨front, content, names, same, -⟩ := Node.mem_fields_iff.mp listed
  exact ⟨_, same⟩

/-! ## Fields -/

theorem mem_holdings_iff {tree : Tree} {place : Path} {held : Holding} :
    (place, held) ∈ tree.holdings ↔ ∃ field, (place, field) ∈ tree.fields ∧ field.holding = held := by
  constructor
  · intro inside
    obtain ⟨⟨_, field⟩, listed, same⟩ := List.mem_map.mp inside
    cases same
    exact ⟨field, listed, rfl⟩
  · rintro ⟨field, listed, rfl⟩
    exact List.mem_map.mpr ⟨_, listed, rfl⟩

theorem Does.exists_field {deeds : List Deed} {tree after : Tree} (does : Does deeds tree after) {place : Path}
    {field : Field} (listed : (place, field) ∈ tree.fields) :
    ∃ later, (place, later) ∈ after.fields ∧ later.holding = Deed.replay deeds place field.holding := by
  refine mem_holdings_iff.mp ?_
  rw [does]
  exact List.mem_map.mpr ⟨_, mem_holdings_iff.mpr ⟨field, listed, rfl⟩, rfl⟩

theorem Does.exists_origin {deeds : List Deed} {tree after : Tree} (does : Does deeds tree after) {place : Path}
    {later : Field} (listed : (place, later) ∈ after.fields) :
    ∃ field, (place, field) ∈ tree.fields ∧ later.holding = Deed.replay deeds place field.holding := by
  have held := mem_holdings_iff.mpr ⟨later, listed, rfl⟩
  rw [does] at held
  obtain ⟨entry, there, same⟩ := List.mem_map.mp held
  injection same with stood replayed
  subst stood
  obtain ⟨field, stands, holding⟩ := mem_holdings_iff.mp there
  exact ⟨field, stands, by rw [holding, replayed]⟩

/-! ## Changes that are no deeds -/

theorem holdings_refresh (tree : Tree) : tree.refresh.holdings = tree.holdings :=
  tree.root.holdings_refresh _ tree.here

theorem holdings_latch (tree : Tree) : tree.latch.holdings = tree.holdings :=
  tree.root.holdings_latch _ tree.here

theorem holdings_change {place : Path} {edit : List String → Node → Node}
    (keeps : ∀ segments, tree.below? place = some segments →
      (edit segments tree.root).holdings tree.here = tree.root.holdings tree.here) :
    (tree.change place edit).holdings = tree.holdings := by
  unfold change
  split
  · rename_i segments below
    exact keeps segments below
  · rfl

theorem Note.holdings (noted : Note tree after) : after.holdings = tree.holdings := by
  have alike := noted.alike
  rw [Tree.holdings, Tree.holdings, ← Node.holdings_clearErrors, alike.root, Node.holdings_clearErrors, alike.here]

theorem Notes.does (notes : Notes tree after) : Does [] tree after := by
  refine .of_eq ?_
  induction notes with
  | refl => rfl
  | tail _ last same => exact last.holdings.trans same

section Regular

variable (regular : tree.root.Regular)
include regular

theorem does_setValue (place : Path) (value : Value) :
    Does [.store place value] tree (tree.change place (Node.modifyField (Field.setValue value))) := by
  unfold change
  split
  · rename_i segments below
    obtain rfl := below?_eq_some_iff.mp below
    exact Node.holdings_modifyField tree.here regular segments (Field.holding_setValue value)
  · rename_i outside
    refine (List.map_id _).symm.trans (List.map_congr_left fun entry held => ?_)
    obtain ⟨segments, same⟩ := exists_of_mem_holdings held
    have elsewhere : entry.1 ≠ place := by
      rintro rfl
      rw [below?_eq_some_iff.mpr same] at outside
      cases outside
    exact congrArg (entry.1, ·) (if_neg elsewhere).symm

theorem does_store (place : Path) (value : Value) : Does [.store place value] tree (tree.store place value) :=
  (does_setValue regular place value).keep (holdings_change fun segments _ => Node.views_touch segments _ _)

theorem holdings_openDialog (place : Path) :
    (tree.change place (Node.modifyForm fun _ => Form.openDialog)).holdings = tree.holdings :=
  holdings_change fun segments _ => Node.holdings_modifyForm _ regular segments fun here _ content =>
    content.holdings_openDialog here

theorem holdings_setSelfDisabled (place : Path) (disabled : Bool) :
    (tree.change place (Node.modifyField (Field.setSelfDisabled disabled))).holdings = tree.holdings := by
  refine holdings_change fun segments _ => ?_
  rw [@Node.holdings_modifyField _ _ regular segments _ id (Field.holding_setSelfDisabled disabled)]
  refine (List.map_congr_left fun entry _ => ?_).trans (List.map_id _)
  split <;> rfl

/-- Leaving the dialog of a form does something only if the dialog is open. -/
theorem does_closeDialog {place : Path} {node : Node} (stands : tree.node? place = some node) (mode : CloseMode) :
    Does (if node.isOpenDialog then [.leave place mode] else []) tree
      (tree.change place (Node.modifyForm fun _ => Form.closeDialog place mode)) := by
  obtain ⟨segments, below, found⟩ := Option.bind_eq_some_iff.mp stands
  rw [change_of_below below]
  obtain rfl := below?_eq_some_iff.mp below
  have left := Node.holdings_closeDialog tree.here regular segments ((Node.get?_eq_some_iff regular).mp found) mode
  cases isOpen : node.isOpenDialog with
  | true =>
      rw [isOpen] at left
      exact left
  | false =>
      rw [isOpen] at left
      exact left

end Regular

theorem does_restore (tree : Tree) : Does [.restore] tree tree.restore := by
  have reset : Does [.restore] tree { tree with root := tree.root.reset, strayErrors := [] } :=
    Node.holdings_reset tree.here tree.root
  exact (reset.keep (holdings_refresh _)).keep (holdings_latch _)

/-- The places of the nodes of a tree. -/
def nodePlaces (tree : Tree) : List Path := tree.nodes.map Prod.fst

theorem Moves.nodePlaces (moves : Moves tree after) : after.nodePlaces = tree.nodePlaces := by
  have same := congrArg (Layout.paths Layout.isNode) moves.layout
  rwa [Tree.layout, Tree.layout, Node.paths_nodes, Node.paths_nodes] at same

end Tree

namespace Cycle

variable {cycle : Cycle}

theorem holdings_navigate {place : Path} {index : Nat} {later : Cycle} {arrived : Bool}
    (navigated : cycle.navigate place index = .ok (later, arrived)) :
    later.tree.holdings = cycle.tree.holdings := by
  obtain ⟨node, moved, failures, validation, stands, gone, rfl⟩ := cycle.navigate_eq_ok navigated
  refine Tree.holdings_change fun segments below => ?_
  rw [Tree.node?, below] at stands
  exact Node.views_modify stands (Node.views_goTo Field.holding_clearErrors gone) _

/-- Carrying out an inducer does nothing to values, or it leaves an open dialog. -/
theorem execute_does (regular : cycle.tree.root.Regular) {event : InducedEvent}
    (listed : event.path ∈ cycle.tree.nodePlaces) :
    Tree.Does (cycle.leave event) cycle.tree (cycle.execute event).1.tree := by
  obtain ⟨induction, path⟩ := event
  unfold leave execute
  cases induction with
  | opens => exact .of_eq (Tree.holdings_openDialog regular path)
  | closes =>
      dsimp only
      cases cycle.closeMode? with
      | none => exact .of_eq rfl
      | some mode =>
          obtain ⟨⟨place, node⟩, there, rfl⟩ := List.mem_map.mp listed
          have stands := (Tree.node?_eq_some_iff regular).mpr there
          dsimp only
          rw [stands]
          exact (Tree.does_closeDialog regular stands mode).keep (Tree.holdings_refresh _)
  | activates =>
      dsimp only
      split
      · exact .of_eq rfl
      · split
        · rename_i navigated
          exact .of_eq (holdings_navigate navigated)
        · exact .of_eq rfl

/-- Carrying out inducers leaves dialogs, one after the other. No inducer moves the node of another one. -/
theorem executeAll_does (regular : cycle.tree.root.Regular) {events : List InducedEvent}
    (listed : ∀ event ∈ events, event.path ∈ cycle.tree.nodePlaces) :
    Tree.Does (leaves events cycle) cycle.tree (executeAll events cycle).1.tree := by
  induction events generalizing cycle with
  | nil => exact .of_eq rfl
  | cons event rest ih =>
      obtain ⟨listedHere, listedLater⟩ := List.forall_mem_cons.mp listed
      have moves := cycle.execute_moves event
      rw [executeAll_cons]
      refine (execute_does regular listedHere).trans (ih (regular.follows moves.retains.toFollows) ?_)
      intro later inside
      change later.path ∈ (cycle.execute event).1.tree.nodePlaces
      rw [moves.nodePlaces]
      exact listedLater later inside

/-- Only nodes have inducers. -/
theorem path_mem_nodePlaces {tree : Tree} {event : InducedEvent} (inside : event ∈ tree.rising) :
    event.path ∈ tree.nodePlaces := by
  obtain ⟨⟨place, node⟩, listed, here⟩ := List.mem_flatMap.mp inside
  refine List.mem_map.mpr ⟨_, listed, ?_⟩
  cases node with
  | form content =>
      obtain ⟨inducer, -, rfl⟩ := List.mem_map.mp here
      rfl
  | collection frame progress members =>
      obtain ⟨inducer, -, rfl⟩ := List.mem_map.mp here
      rfl
  | series frame template siblings =>
      obtain ⟨inducer, -, rfl⟩ := List.mem_map.mp here
      rfl

theorem settle_does (regular : cycle.tree.root.Regular) :
    Tree.Does cycle.settling cycle.tree cycle.settle.1.tree := by
  have latched : cycle.tree.refresh.latch.holdings = cycle.tree.holdings :=
    (Tree.holdings_latch _).trans (Tree.holdings_refresh _)
  have moves : Tree.Moves cycle.tree cycle.tree.refresh.latch :=
    (ReflTransGen.single (.refresh _)).tail (.latch _)
  have executed : Tree.Does (leaves cycle.risen cycle.induced) cycle.induced.tree
      (executeAll cycle.risen cycle.induced).1.tree := by
    refine executeAll_does (regular.follows moves.retains.toFollows) fun event inside => ?_
    have places : cycle.tree.refresh.latch.nodePlaces = cycle.tree.refresh.nodePlaces :=
      Tree.Moves.nodePlaces (.single (.latch _))
    change event.path ∈ cycle.tree.refresh.latch.nodePlaces
    rw [places]
    exact path_mem_nodePlaces inside
  have last : cycle.settle.1.tree.holdings = (executeAll cycle.risen cycle.induced).1.tree.holdings :=
    (Tree.holdings_latch _).trans (Tree.holdings_refresh _)
  exact ((Tree.Does.of_eq latched).trans executed).keep last

/-- Settling a tree in which no button fires does nothing to values: no dialog is left without a mode. -/
theorem settle_keeps (regular : cycle.tree.root.Regular) (quiet : cycle.tree.firing = none) :
    cycle.settle.1.tree.holdings = cycle.tree.holdings := by
  have does := settle_does regular
  rw [settling_of_quiet cycle quiet] at does
  exact does.eq

section Rest

variable (regular : cycle.tree.root.Regular) (quiet : cycle.tree.firing = none)
include regular quiet

theorem assign_does (button : Path) (target : Reference) (value : Option Value) :
    Tree.Does (Executed.assigned (cycle.tree.resolveField? button target) value) cycle.tree
      (cycle.assign button target value).1.tree := by
  unfold assign
  cases cycle.tree.resolveField? button target with
  | none => exact .of_eq rfl
  | some place =>
      cases value with
      | none => exact .of_eq rfl
      | some content =>
          have stored := Tree.does_store regular place content
          have moves := cycle.tree.store_moves place content
          have stillQuiet := (cycle.tree.firing_store place content).trans quiet
          exact stored.keep (@settle_keeps { cycle with tree := cycle.tree.store place content }
            (regular.follows moves.retains.toFollows) stillQuiet)

/-- A button that is disabled or enabled keeps all values. -/
theorem setSelfDisabled_keeps (button : Path) (disabled : Bool) :
    ({ cycle with tree := cycle.tree.change button (Node.modifyField (Field.setSelfDisabled disabled)) } :
      Cycle).settle.1.tree.holdings = cycle.tree.holdings := by
  have changed := Tree.holdings_setSelfDisabled regular button disabled
  have moves := Tree.Move.setSelfDisabled cycle.tree button disabled
  exact (@settle_keeps { cycle with tree := _ } (regular.follows moves.retains.toFollows)
    ((Tree.firing_change _ _ _).trans quiet)).trans changed

theorem perform_does (button : Path) (remaining reject : List Call) (call : Call) :
    Tree.Does (Executed.deeds ⟨button, call, cycle⟩) cycle.tree
      (cycle.perform button remaining reject call).1.tree := by
  cases call with
  | activate arguments => exact @settle_does (cycle.activated button arguments) regular
  | submit => exact (cycle.beginSubmission_notes _ _ _ _).does
  | submitPartial => exact (cycle.beginSubmission_notes _ _ _ _).does
  | setFieldValue target source => exact assign_does regular quiet _ _ _
  | deleteValue target => exact assign_does regular quiet _ _ _
  | reset => exact Tree.does_restore cycle.tree
  | disable => exact .of_eq (setSelfDisabled_keeps regular quiet button true)
  | enable => exact .of_eq (setSelfDisabled_keeps regular quiet button false)
  | proceed given =>
      unfold perform
      dsimp only
      split
      · exact .of_eq rfl
      · exact .of_eq rfl
  | clearErrors => exact (Tree.clearErrors_notes _).does
  | noop => exact .of_eq rfl

end Rest

section Chains

variable (regular : cycle.tree.root.Regular) (rest : cycle.tree.AtRest)
include regular rest

/-- A chain does what its calls do. -/
theorem runChain_does (button : Path) (reject chain : List Call) :
    Tree.Does ((cycle.executedChain button reject chain).flatMap Executed.deeds) cycle.tree
      (cycle.runChain button reject chain).1.tree := by
  induction chain generalizing cycle with
  | nil => exact .of_eq rfl
  | cons call others ih =>
      have first := perform_does regular rest.quiet button others reject call
      have moves := cycle.perform_moves button others reject call
      have stillRest := perform_atRest rest button others reject call
      unfold runChain executedChain
      rw [List.flatMap_cons]
      generalize cycle.perform button others reject call = performed at first moves stillRest ⊢
      obtain ⟨after, ending⟩ := performed
      cases ending with
      | completed => exact first.trans (ih (regular.follows moves.retains.toFollows) stillRest)
      | suspended => exact first.trans (.of_eq rfl)
      | failed => exact first.trans (.of_eq rfl)

/-- A run does what the calls of its chain do, and then what those of the reject chain do. -/
theorem run_does (button : Path) (chain reject : List Call) :
    Tree.Does ((cycle.executedRun button chain reject).flatMap Executed.deeds) cycle.tree
      (cycle.run button chain reject).tree := by
  have first := runChain_does regular rest button reject chain
  have moves := cycle.runChain_moves button reject chain
  have stillRest := runChain_atRest rest button reject chain
  unfold run executedRun
  rw [List.flatMap_append]
  generalize cycle.runChain button reject chain = ran at first moves stillRest ⊢
  obtain ⟨after, ending⟩ := ran
  cases ending with
  | completed => exact first.trans (.of_eq rfl)
  | suspended => exact first.trans (.of_eq rfl)
  | failed =>
      exact first.trans (runChain_does (regular.follows moves.retains.toFollows) stillRest button [] reject)

end Chains

end Cycle

namespace Tree

/-! ## Operations -/

section Operations

variable {tree : Tree} {cycle : Cycle} (regular : tree.root.Regular) (rest : tree.AtRest)
include regular rest

theorem click_does {path : Path} (done : tree.click path = .ok cycle) :
    Does ((tree.executed (.click path)).flatMap Executed.deeds) tree cycle.tree := by
  obtain ⟨-, field, button, found, isButton, -, -, rfl⟩ := click_eq_ok done
  rw [executed, done, found]
  simp only [Option.bind_some, isButton]
  exact @Cycle.run_does (.start tree) regular rest path _ _

theorem complete_does {outcome : Outcome} (done : tree.complete outcome = .ok cycle) :
    Does ((tree.executed (.complete outcome)).flatMap Executed.deeds) tree cycle.tree := by
  obtain ⟨pending, waits, rfl⟩ := complete_eq_ok done
  rw [executed, waits]
  cases success? outcome with
  | some response =>
      have notes := tree.informed_notes response
      have ran := @Cycle.run_does (.start (tree.informed response))
        (regular.follows notes.moves.retains.toFollows) (notes.atRest rest) pending.button pending.remaining
        pending.reject
      exact notes.does.trans ran
  | none =>
      have notes := tree.refused_notes outcome
      have ran := @Cycle.runChain_does ⟨tree.refused outcome, refusal outcome⟩
        (regular.follows notes.moves.retains.toFollows) (notes.atRest rest) pending.button [] pending.reject
      exact notes.does.trans ran

/-- Every operation that moves no siblings does its deeds, and an operation without deeds keeps all values. -/
theorem answer_does {operation : Operation} (done : tree.answer operation = .ok cycle)
    (notAdding : ∀ path behind, operation ≠ .addSibling path behind)
    (notRemoving : ∀ path index, operation ≠ .removeSibling path index) :
    Does (tree.deeds operation) tree cycle.tree := by
  cases operation with
  | setValue path value =>
      change tree.setValue path value = _ at done
      rw [deeds, done]
      obtain ⟨-, -, rfl⟩ := setValue_eq_ok done
      exact (does_store regular path value).keep (@Cycle.settle_keeps ⟨_, _⟩
        (regular.follows (tree.store_moves path value).retains.toFollows)
        ((tree.firing_store path value).trans rest.quiet))
  | click path => exact click_does regular rest done
  | addSibling path behind => exact absurd rfl (notAdding path behind)
  | removeSibling path index => exact absurd rfl (notRemoving path index)
  | goToStep path index =>
      obtain ⟨-, moved, arrived, navigated, rfl⟩ := goToStep_eq_ok done
      have moves := Cycle.navigate_moves _ navigated
      have stillQuiet := (Cycle.firing_navigate _ navigated).trans rest.quiet
      exact .of_eq ((Cycle.settle_keeps (regular.follows moves.retains.toFollows) stillQuiet).trans
        (Cycle.holdings_navigate navigated))
  | validate =>
      cases done
      exact tree.validate_notes.does
  | validatePart scope =>
      cases done
      exact (tree.validatePart_notes scope).does
  | applyErrors messages =>
      cases done
      exact (tree.applyErrors_notes messages).does
  | reset =>
      change tree.reset = _ at done
      rw [deeds, done]
      obtain ⟨-, rfl⟩ := reset_eq_ok done
      exact does_restore tree
  | complete outcome => exact complete_does regular rest done

end Operations

end Tree

end Formwork
