import Formwork.Proofs.Tree.Moves

/-!
# What the operations answer

`Operation` lists what can be done to a tree from outside. For each operation one theorem says what
it means that it was accepted: what had to hold of the tree before, and what the tree went through.
Everything that is proved about operations is proved from these.
-/

set_option autoImplicit false

namespace Formwork

open Relation

/-- What can be done to a tree from outside. -/
inductive Operation where
  | setValue (path : Path) (value : Value)
  | click (path : Path)
  | addSibling (path : Path) (behind : Option Nat)
  | removeSibling (path : Path) (index : Nat)
  | goToStep (path : Path) (index : Nat)
  | validate
  | validatePart (scope : Path)
  | applyErrors (messages : Messages)
  | reset
  | complete (outcome : Outcome)

namespace Tree

/-- What a tree answers to an operation. -/
def answer (tree : Tree) : Operation → Except Rejection Cycle
  | .setValue path value => tree.setValue path value
  | .click path => tree.click path
  | .addSibling path behind => tree.addSibling path behind
  | .removeSibling path index => tree.removeSibling path index
  | .goToStep path index => tree.goToStep path index
  | .validate => .ok (.start tree.validate.1)
  | .validatePart scope => .ok (.start (tree.validatePart scope).1)
  | .applyErrors messages => .ok (.start (tree.applyErrors messages))
  | .reset => tree.reset
  | .complete outcome => tree.complete outcome

/-- The tree after an operation; one that is refused changes nothing. -/
def after (tree : Tree) (operation : Operation) : Tree :=
  match tree.answer operation with
  | .ok cycle => cycle.tree
  | .error _ => tree

/-- An operation that is accepted leaves the tree of its answer. -/
theorem after_of_ok {tree : Tree} {operation : Operation} {cycle : Cycle}
    (done : tree.answer operation = .ok cycle) : tree.after operation = cycle.tree := by
  rw [after, done]

/-! ## Mounting -/

/-- The tree of a node that was built, filled with initial data and not yet refreshed. -/
def planted (blueprint : Blueprint) (initial : Option Json) (built : Node) : Tree where
  namespaceText := blueprint.namespaceText
  root := built.fill (initial.map InitialData.expandKeys)
  firing := none
  pending := none
  response := []
  strayErrors := []

/-- The tree with the visited steps marked. -/
def prefilled (tree : Tree) : Tree := { tree with root := tree.root.markPrefilled }

/-- A tree is mounted if its root could be built. -/
theorem mount_eq_ok {blueprint : Blueprint} {initial : Option Json} {tree : Tree}
    (mounted : Tree.mount blueprint initial = .ok tree) :
    ∃ here built, Node.build here .top blueprint.root = .ok built ∧
      tree = (planted blueprint initial built).refresh.prefilled.latch := by
  obtain ⟨built, nodeBuilt, same⟩ := bind_eq_ok.mp mounted
  rw [pure_eq_ok] at same
  exact ⟨_, built, nodeBuilt, same.symm⟩

/-! ## Accepted operations -/

variable {tree : Tree} {cycle : Cycle}

theorem setValue_eq_ok {path : Path} {value : Value} (done : tree.setValue path value = .ok cycle) :
    tree.isBusy = false ∧
      (∃ field, tree.field? path = some field ∧ field.isButton = false ∧ field.hidden = false ∧
        field.disabled = false) ∧
      cycle = (Cycle.mk (tree.store path value) .empty).settle.1 := by
  unfold setValue at done
  split at done
  · cases done
  · rename_i idle
    split at done
    · cases done
    · rename_i field found
      split at done
      · cases done
      · split at done
        · cases done
        · split at done
          · cases done
          · cases done
            exact ⟨by simpa using idle, ⟨field, found, by simp_all⟩, rfl⟩

theorem addSibling_eq_ok {path : Path} {behind : Option Nat}
    (done : tree.addSibling path behind = .ok cycle) :
    tree.isBusy = false ∧ ∃ node extended index, tree.node? path = some node ∧
      node.addSibling path behind = .ok (extended, index) ∧
        cycle = (Cycle.mk (tree.change path (Node.modify fun _ => extended))
          { Report.empty with sibling := some index }).settle.1 := by
  unfold addSibling at done
  split at done
  · cases done
  · rename_i idle
    split at done
    · cases done
    · rename_i node stands
      obtain ⟨⟨extended, index⟩, added, same⟩ := bind_eq_ok.mp done
      rw [pure_eq_ok] at same
      exact ⟨by simpa using idle, node, extended, index, stands, added, same.symm⟩

theorem removeSibling_eq_ok {path : Path} {index : Nat}
    (done : tree.removeSibling path index = .ok cycle) :
    tree.isBusy = false ∧ ∃ node reduced, tree.node? path = some node ∧
      node.removeSibling path index = .ok reduced ∧
        cycle = (Cycle.mk (tree.change path (Node.modify fun _ => reduced)) .empty).settle.1 := by
  unfold removeSibling at done
  split at done
  · cases done
  · rename_i idle
    split at done
    · cases done
    · rename_i node stands
      obtain ⟨reduced, removed, same⟩ := bind_eq_ok.mp done
      rw [pure_eq_ok] at same
      exact ⟨by simpa using idle, node, reduced, stands, removed, same.symm⟩

theorem goToStep_eq_ok {path : Path} {index : Nat} (done : tree.goToStep path index = .ok cycle) :
    tree.isBusy = false ∧ ∃ moved arrived, (Cycle.start tree).navigate path index = .ok (moved, arrived) ∧
      cycle = moved.settle.1 := by
  unfold goToStep at done
  split at done
  · cases done
  · rename_i idle
    obtain ⟨⟨moved, arrived⟩, navigated, same⟩ := bind_eq_ok.mp done
    rw [pure_eq_ok] at same
    exact ⟨by simpa using idle, moved, arrived, navigated, same.symm⟩

theorem reset_eq_ok (done : tree.reset = .ok cycle) :
    tree.isBusy = false ∧ cycle = .start tree.restore := by
  unfold reset at done
  split at done
  · cases done
  · rename_i idle
    cases done
    exact ⟨by simpa using idle, rfl⟩

theorem click_eq_ok {path : Path} (done : tree.click path = .ok cycle) :
    tree.isBusy = false ∧ ∃ field button, tree.field? path = some field ∧ field.button = some button ∧
      field.hidden = false ∧ field.disabled = false ∧
        cycle = (Cycle.start tree).run path button.pipeline.success button.pipeline.reject := by
  unfold click at done
  split at done
  · cases done
  · rename_i idle
    split at done
    · cases done
    · rename_i field found
      split at done
      · cases done
      · rename_i button isButton
        split at done
        · cases done
        · split at done
          · cases done
          · cases done
            exact ⟨by simpa using idle, field, button, found, isButton, by simp_all, by simp_all, rfl⟩

/-- The tree without the submission that was pending. -/
def idle (tree : Tree) : Tree := { tree with pending := none }

/-- The tree that a successful response leaves for the calls that are left. -/
def informed (tree : Tree) (response : Response) : Tree :=
  { tree.idle with response := responseFields response.body, strayErrors := [] }

/-- The tree that any other outcome leaves for the reject chain. -/
def refused (tree : Tree) : Outcome → Tree
  | .ok response =>
    if response.isValidationFailure then tree.idle.applyErrors response.messages else tree.idle
  | .error _ => tree.idle

theorem informed_notes (tree : Tree) (response : Response) : Notes tree (tree.informed response) :=
  ((ReflTransGen.single (.wait tree none)).tail (.answer _ (responseFields response.body))).tail
    (.stray _ [])

theorem refused_notes (tree : Tree) (outcome : Outcome) : Notes tree (tree.refused outcome) := by
  have idle : Notes tree tree.idle := .single (.wait tree none)
  unfold refused
  split
  · split
    · exact idle.trans (applyErrors_notes _ _)
    · exact idle
  · exact idle

/-- The report with which the reject chain starts. -/
def refusal : Outcome → Report
  | .ok response =>
    if response.isValidationFailure then
      { Report.empty with validation := some ⟨422, response.messages⟩ }
    else { Report.empty with
      failure := some ("unexpected response status " ++ Text.indexText response.status) }
  | .error failure => { Report.empty with failure := some failure.message }

/-- The response of a request that was carried out. -/
def success? : Outcome → Option Response
  | .ok response => if response.isSuccess then some response else none
  | .error _ => none

/-- A delivered outcome goes on with the calls that are left, or else with the reject chain. -/
theorem complete_eq {pending : Pending} (waits : tree.pending = some pending) (outcome : Outcome) :
    tree.complete outcome = .ok
      (match success? outcome with
      | some response =>
        (Cycle.start (tree.informed response)).run pending.button pending.remaining pending.reject
      | none =>
        (Cycle.runChain pending.button [] pending.reject ⟨tree.refused outcome, refusal outcome⟩).1) := by
  unfold complete
  rw [waits]
  cases outcome with
  | error failure => rfl
  | ok response =>
      dsimp only
      split
      · rename_i success
        simp only [success?, if_pos success]
        rfl
      · rename_i failed
        split
        · rename_i invalid
          simp only [success?, if_neg failed, refused, refusal, if_pos invalid]
          rfl
        · rename_i other
          simp only [success?, if_neg failed, refused, refusal, if_neg other]
          rfl

/-- An outcome is accepted only if a submission is pending. -/
theorem complete_eq_ok {outcome : Outcome} (done : tree.complete outcome = .ok cycle) :
    ∃ pending, tree.pending = some pending ∧ cycle =
      match success? outcome with
      | some response =>
        (Cycle.start (tree.informed response)).run pending.button pending.remaining pending.reject
      | none =>
        (Cycle.runChain pending.button [] pending.reject ⟨tree.refused outcome, refusal outcome⟩).1 := by
  cases waits : tree.pending with
  | none =>
      rw [complete, waits] at done
      cases done
  | some pending =>
      rw [complete_eq waits] at done
      cases done
      exact ⟨pending, rfl, rfl⟩

/-! ## Operations are made of moves -/

/-- An operation that adds or removes a sibling begins with a resize, and nothing but moves follows. -/
inductive Course (tree : Tree) : Operation → Tree → Prop where
  | moves {operation : Operation} {after : Tree} (moves : Moves tree after) : Course tree operation after
  | addSibling {path : Path} {behind : Option Nat} {node extended : Node} {index : Nat} {after : Tree}
      (stands : tree.node? path = some node) (added : node.addSibling path behind = .ok (extended, index))
      (moves : Moves (tree.change path (Node.modify fun _ => extended)) after) :
      Course tree (.addSibling path behind) after
  | removeSibling {path : Path} {index : Nat} {node reduced : Node} {after : Tree}
      (stands : tree.node? path = some node) (removed : node.removeSibling path index = .ok reduced)
      (moves : Moves (tree.change path (Node.modify fun _ => reduced)) after) :
      Course tree (.removeSibling path index) after

/-- More moves may follow. -/
theorem Course.trans {operation : Operation} {after later : Tree} (course : Course tree operation after)
    (more : Moves after later) : Course tree operation later := by
  cases course with
  | moves moves => exact .moves (moves.trans more)
  | addSibling stands added moves => exact .addSibling stands added (moves.trans more)
  | removeSibling stands removed moves => exact .removeSibling stands removed (moves.trans more)

theorem answer_course {operation : Operation} (done : tree.answer operation = .ok cycle) :
    Course tree operation cycle.tree := by
  cases operation with
  | setValue path value =>
      obtain ⟨-, -, rfl⟩ := setValue_eq_ok done
      exact .moves ((tree.store_moves path value).trans (Cycle.settle_moves ⟨_, _⟩))
  | click path =>
      obtain ⟨-, field, button, -, -, -, -, rfl⟩ := click_eq_ok done
      exact .moves (Cycle.run_moves (.start tree) _ _ _)
  | addSibling path behind =>
      obtain ⟨-, node, extended, index, stands, added, rfl⟩ := addSibling_eq_ok done
      exact .addSibling stands added (Cycle.settle_moves ⟨_, _⟩)
  | removeSibling path index =>
      obtain ⟨-, node, reduced, stands, removed, rfl⟩ := removeSibling_eq_ok done
      exact .removeSibling stands removed (Cycle.settle_moves ⟨_, _⟩)
  | goToStep path index =>
      obtain ⟨-, moved, arrived, navigated, rfl⟩ := goToStep_eq_ok done
      exact .moves ((Cycle.navigate_moves _ navigated).trans moved.settle_moves)
  | validate =>
      cases done
      exact .moves tree.validate_notes.moves
  | validatePart scope =>
      cases done
      exact .moves (tree.validatePart_notes scope).moves
  | applyErrors messages =>
      cases done
      exact .moves (tree.applyErrors_notes messages).moves
  | reset =>
      obtain ⟨-, rfl⟩ := reset_eq_ok done
      exact .moves tree.restore_moves
  | complete outcome =>
      obtain ⟨pending, -, rfl⟩ := complete_eq_ok done
      cases success? outcome with
      | some response =>
          exact .moves ((tree.informed_notes response).moves.trans
            (Cycle.run_moves (.start (tree.informed response)) _ _ _))
      | none =>
          exact .moves ((tree.refused_notes outcome).moves.trans
            (Cycle.runChain_moves ⟨tree.refused outcome, refusal outcome⟩ _ _ _))

theorem after_course (tree : Tree) (operation : Operation) : Course tree operation (tree.after operation) := by
  unfold after
  split
  · rename_i done
    exact answer_course done
  · exact .moves .refl

end Tree

end Formwork
