import Mathlib.Logic.Relation
import Formwork.Tree.Operation
import Formwork.Proofs.Node.Moves
import Formwork.Proofs.Node.Places

/-!
# Elementary changes of a tree

Whatever happens to a tree is made of a few elementary changes. A *note* touches messages, the
pending submission and the last response, and nothing that a value, a flag or a latch depends on
(`Tree.Note`). A *move* is a note or one of the changes that do more (`Tree.Move`): a value is
stored, a dialog opened, a step reached, the flags are derived anew. No move adds or removes an element.

Every call is a sequence of moves (`Cycle.run_moves` and so on), and so is every operation, apart from
the sibling that it may add or remove in front (`Tree.after_course`). So a fact that moves keep is
kept by everything that can happen to a tree, once it is known of siblings that come and go.
-/

set_option autoImplicit false

namespace Formwork

open Relation

namespace Tree

/-- A change of messages, of the pending submission or of the last response. -/
inductive Note : Tree → Tree → Prop where
  | validate (tree : Tree) : Note tree { tree with root := tree.root.validate tree.here }
  | validateNode (tree : Tree) (place : Path) :
      Note tree (tree.change place (Node.modify (Node.validate place)))
  | validateFieldset (tree : Tree) (place : Path) :
      Note tree (tree.change place (Node.modifyForm (Form.validateAt place)))
  | setErrors (tree : Tree) (place : Path) (messages : List String) :
      Note tree (tree.change place (Node.modifyField (Field.setErrors messages)))
  | addErrors (tree : Tree) (place : Path) (messages : List String) :
      Note tree (tree.change place (Node.modifyGroup (Group.addErrors messages)))
  | clearErrors (tree : Tree) : Note tree { tree with root := tree.root.clearErrors }
  | stray (tree : Tree) (messages : List String) : Note tree { tree with strayErrors := messages }
  | wait (tree : Tree) (pending : Option Pending) : Note tree { tree with pending }
  | answer (tree : Tree) (response : List (String × Json)) : Note tree { tree with response }

/-- An elementary change of a tree. -/
inductive Move : Tree → Tree → Prop where
  | note {tree after : Tree} (noted : Note tree after) : Move tree after
  | refresh (tree : Tree) : Move tree tree.refresh
  | latch (tree : Tree) : Move tree tree.latch
  | fire (tree : Tree) (firing : Option Firing) : Move tree { tree with firing }
  | reset (tree : Tree) : Move tree { tree with root := tree.root.reset }
  | setValue (tree : Tree) (place : Path) (value : Value) :
      Move tree (tree.change place (Node.modifyField (Field.setValue value)))
  | touch (tree : Tree) (place : Path) : Move tree (tree.change place Node.touch)
  | setSelfDisabled (tree : Tree) (place : Path) (disabled : Bool) :
      Move tree (tree.change place (Node.modifyField (Field.setSelfDisabled disabled)))
  | openDialog (tree : Tree) (place : Path) :
      Move tree (tree.change place (Node.modifyForm fun _ => Form.openDialog))
  | closeDialog (tree : Tree) (place : Path) (mode : CloseMode) :
      Move tree (tree.change place (Node.modifyForm fun _ => Form.closeDialog place mode))
  | goTo {tree : Tree} {place : Path} {index : Nat} {node moved : Node}
      {failures : List (Path × List String)} (stands : tree.node? place = some node)
      (gone : node.goTo place index = .ok (moved, failures)) :
      Move tree (tree.change place (Node.modify fun _ => moved))

/-- Notes one after the other. -/
abbrev Notes : Tree → Tree → Prop := ReflTransGen Note

/-- Moves one after the other. -/
abbrev Moves : Tree → Tree → Prop := ReflTransGen Move

theorem Notes.moves {tree after : Tree} (notes : Notes tree after) : Moves tree after :=
  ReflTransGen.mono (fun _ _ => .note) _ _ notes

/-! ## What becomes of the root -/

section Root

variable {tree after : Tree}

theorem root_change {place : Path} {edit : List String → Node → Node}
    (moves : ∀ segments, tree.below? place = some segments → Node.Move tree.root (edit segments tree.root)) :
    (tree.change place edit).root = tree.root ∨ Node.Move tree.root (tree.change place edit).root := by
  unfold change
  split
  · rename_i segments below
    exact .inr (moves segments below)
  · exact .inl rfl

/-- A note leaves the root as it is, or makes an elementary change of it. -/
theorem Note.root (noted : Note tree after) : after.root = tree.root ∨ Node.Move tree.root after.root := by
  cases noted with
  | validate => exact .inr (.validate _ _)
  | validateNode place => exact root_change fun segments _ => .validatePart place segments _
  | validateFieldset place =>
      exact root_change fun segments _ => .onTheWay (fun names content => .validateAt content place names) _ _
  | setErrors place messages =>
      exact root_change fun segments _ => .onTheWay (fun names content => .setErrors content messages names) _ _
  | addErrors place messages =>
      exact root_change fun segments _ => .onTheWay (fun names content => .addErrors content messages names) _ _
  | clearErrors => exact .inr (.clearErrors _)
  | stray => exact .inl rfl
  | wait => exact .inl rfl
  | answer => exact .inl rfl

/-- A move leaves the root as it is, or makes an elementary change of it. -/
theorem Move.root (move : Move tree after) : after.root = tree.root ∨ Node.Move tree.root after.root := by
  cases move with
  | note noted => exact noted.root
  | refresh => exact .inr (.refresh _ _ _)
  | latch => exact .inr (.latch _ _ _)
  | fire => exact .inl rfl
  | reset => exact .inr (.reset _)
  | setValue place value =>
      exact root_change fun segments _ => .onTheWay (fun names content => .setValue content value names) _ _
  | touch place => exact root_change fun segments _ => .touch segments _
  | setSelfDisabled place disabled =>
      exact root_change fun segments _ => .onTheWay (fun names content => .setSelfDisabled content disabled names) _ _
  | openDialog place => exact root_change fun segments _ => .onTheWay (fun _ content => .openDialog content) _ _
  | closeDialog place mode =>
      exact root_change fun segments _ => .onTheWay (fun _ content => .closeDialog content place mode) _ _
  | goTo stands gone =>
      refine root_change fun segments below => .goTo ?_ gone
      rwa [node?, below] at stands

end Root

/-! ## Notes -/

variable (tree : Tree)

theorem validate_notes : Notes tree tree.validate.1 :=
  (ReflTransGen.single (.validate tree)).tail (.stray _ _)

theorem validatePart_notes (scope : Path) : Notes tree (tree.validatePart scope).1 := by
  unfold validatePart
  split
  · exact .single (.validateNode tree scope)
  · exact .single (.validateFieldset tree scope)

/-- The place for which messages under a key are meant. -/
def target (key : String) : Path :=
  if (tree.path key).last? = some Response.groupKey then (tree.path key).enclosing else tree.path key

theorem applyMessages_eq (key : String) (messages : List String) :
    tree.applyMessages key messages =
      if (tree.field? (tree.target key)).isSome then
        tree.change (tree.target key) (Node.modifyField (Field.setErrors messages))
      else if (tree.group? (tree.target key)).isSome then
        tree.change (tree.target key) (Node.modifyGroup (Group.addErrors messages))
      else { tree with strayErrors := tree.strayErrors ++ messages } := rfl

theorem applyMessages_notes (key : String) (messages : List String) :
    Notes tree (tree.applyMessages key messages) := by
  rw [applyMessages_eq]
  split
  · exact .single (.setErrors tree _ messages)
  · split
    · exact .single (.addErrors tree _ messages)
    · exact .single (.stray tree _)

theorem applyErrors_notes (messages : Messages) : Notes tree (tree.applyErrors messages) := by
  induction messages generalizing tree with
  | nil => exact .refl
  | cons entry rest ih => exact (tree.applyMessages_notes entry.1 entry.2).trans (ih _)

theorem clearErrors_notes : Notes tree tree.clearErrors :=
  (ReflTransGen.single (.clearErrors tree)).tail (.stray _ _)

/-! ## Moves -/

theorem restore_moves : Moves tree tree.restore :=
  (((ReflTransGen.single (.reset tree)).tail (.note (.stray _ []))).tail (.refresh _)).tail (.latch _)

theorem store_moves (place : Path) (value : Value) : Moves tree (tree.store place value) :=
  (ReflTransGen.single (.setValue tree place value)).tail (.touch _ place)

end Tree

namespace Cycle

variable (cycle : Cycle)

/-- Going to a step puts the stepper that has gone there in its place, and reports at most a validation. -/
theorem navigate_eq_ok {place : Path} {index : Nat} {after : Cycle} {arrived : Bool}
    (navigated : cycle.navigate place index = .ok (after, arrived)) : ∃ node moved failures validation,
      cycle.tree.node? place = some node ∧ node.goTo place index = .ok (moved, failures) ∧
        after = ⟨cycle.tree.change place (Node.modify fun _ => moved), { cycle.report with validation }⟩ := by
  unfold navigate at navigated
  split at navigated
  · cases navigated
  · rename_i node stands
    obtain ⟨⟨moved, failures⟩, gone, same⟩ := bind_eq_ok.mp navigated
    dsimp only at same
    split at same
    · cases same
      exact ⟨node, moved, failures, _, stands, gone, rfl⟩
    · cases same
      exact ⟨node, moved, failures, _, stands, gone, rfl⟩

theorem navigate_moves {place : Path} {index : Nat} {after : Cycle} {arrived : Bool}
    (navigated : cycle.navigate place index = .ok (after, arrived)) :
    Tree.Moves cycle.tree after.tree := by
  obtain ⟨node, moved, failures, validation, stands, gone, rfl⟩ := cycle.navigate_eq_ok navigated
  exact .single (.goTo stands gone)

theorem execute_moves (event : InducedEvent) : Tree.Moves cycle.tree (cycle.execute event).1.tree := by
  unfold execute
  split
  · exact .single (.openDialog _ _)
  · split
    · exact .refl
    · exact (ReflTransGen.single (.closeDialog _ _ _)).tail (.refresh _)
  · split
    · exact .refl
    · split
      · rename_i navigated
        exact cycle.navigate_moves navigated
      · exact .refl

/-- The cycle with an inducer added to its report. -/
def reported (event : InducedEvent) : Cycle :=
  { cycle with report := { cycle.report with induced := cycle.report.induced ++ [event] } }

theorem executeAll_cons (event : InducedEvent) (rest : List InducedEvent) :
    executeAll (event :: rest) cycle =
      let later := executeAll rest ((cycle.execute event).1.reported event)
      (later.1, (cycle.execute event).2 && later.2) := rfl

theorem executeAll_moves (events : List InducedEvent) :
    Tree.Moves cycle.tree (executeAll events cycle).1.tree := by
  induction events generalizing cycle with
  | nil => exact .refl
  | cons event rest ih =>
      rw [executeAll_cons]
      exact (cycle.execute_moves event).trans (ih ((cycle.execute event).1.reported event))

theorem settle_moves : Tree.Moves cycle.tree cycle.settle.1.tree := by
  have start : Tree.Moves cycle.tree cycle.tree.refresh.latch :=
    (ReflTransGen.single (.refresh _)).tail (.latch _)
  have induced := executeAll_moves { cycle with tree := cycle.tree.refresh.latch }
    cycle.tree.refresh.rising
  exact (((start.trans induced).tail (.fire _ none)).tail (.refresh _)).tail (.latch _)

theorem assign_moves (button : Path) (target : Reference) (value : Option Value) :
    Tree.Moves cycle.tree (cycle.assign button target value).1.tree := by
  unfold assign
  split
  · rename_i place content _
    exact (cycle.tree.store_moves place content).trans (settle_moves { cycle with tree := _ })
  · exact .refl

/-- A submission that is begun leaves notes only. -/
theorem beginSubmission_notes (button : Path) (method : Method) (remaining reject : List Call) :
    Tree.Notes cycle.tree (cycle.beginSubmission button method remaining reject).1.tree := by
  unfold beginSubmission
  cases method with
  | post =>
      dsimp only
      split
      · exact (Tree.validate_notes _).tail (.wait _ _)
      · exact Tree.validate_notes _
  | patch =>
      dsimp only
      split
      · exact (Tree.validatePart_notes _ _).tail (.wait _ _)
      · exact Tree.validatePart_notes _ _

theorem perform_moves (button : Path) (remaining reject : List Call) (call : Call) :
    Tree.Moves cycle.tree (cycle.perform button remaining reject call).1.tree := by
  cases call with
  | activate arguments => exact (ReflTransGen.single (.fire _ _)).trans (settle_moves { cycle with tree := _ })
  | submit => exact (cycle.beginSubmission_notes _ _ _ _).moves
  | submitPartial => exact (cycle.beginSubmission_notes _ _ _ _).moves
  | setFieldValue target source => exact cycle.assign_moves _ _ _
  | deleteValue target => exact cycle.assign_moves _ _ _
  | reset => exact cycle.tree.restore_moves
  | disable =>
      exact (ReflTransGen.single (.setSelfDisabled _ button true)).trans
        (settle_moves { cycle with tree := _ })
  | enable =>
      exact (ReflTransGen.single (.setSelfDisabled _ button false)).trans
        (settle_moves { cycle with tree := _ })
  | proceed given =>
      unfold perform
      dsimp only
      split
      · exact .refl
      · exact .refl
  | clearErrors => exact (Tree.clearErrors_notes _).moves
  | noop => exact .refl

theorem runChain_moves (button : Path) (reject chain : List Call) :
    Tree.Moves cycle.tree (runChain button reject chain cycle).1.tree := by
  induction chain generalizing cycle with
  | nil => exact .refl
  | cons call rest ih =>
      have first := cycle.perform_moves button rest reject call
      unfold runChain
      split
      · rename_i after performed
        rw [performed] at first
        exact first.trans (ih after)
      · exact first

theorem run_moves (button : Path) (chain reject : List Call) :
    Tree.Moves cycle.tree (cycle.run button chain reject).tree := by
  have first := cycle.runChain_moves button reject chain
  unfold run
  split
  · rename_i after failed
    rw [failed] at first
    exact first.trans (after.runChain_moves button [] reject)
  · rename_i after _ _ ended
    rw [ended] at first
    exact first

end Cycle

end Formwork
