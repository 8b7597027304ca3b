import Formwork.Proofs.Node.Rearranging
import Formwork.Proofs.Tree.Reachable

/-!
# What a tree remembers of its paths

A tree is run together with a layout (`Tree.Remembers`). The layout starts with the paths at which the
elements were built. When a sibling is added or removed, the series is searched by the path that it
remembers, and the copy of its template and the siblings behind it are moved; nothing else that can be
done to a tree moves an element.

However long the run was, what is remembered is what the elements would remember had they been built
where they stand now (`Tree.Remembers.layout_eq`).
-/

set_option autoImplicit false

namespace Formwork

/-- What the elements of a tree remember after an operation that was accepted or refused. -/
def Layout.after (layout : Layout) (accepted : Bool) (operation : Operation) : Layout :=
  match accepted, operation with
  | true, .addSibling path behind => layout.changeAt (Layout.addSibling behind) path
  | true, .removeSibling path index => layout.changeAt (Layout.removeSibling index) path
  | _, _ => layout

namespace Tree

/-- What the elements of a tree remember if each was built where it stands. -/
def layout (tree : Tree) : Layout := tree.root.layout tree.here

/-- A tree that was mounted and then went through operations, and what its elements remember. -/
inductive Remembers : Tree → Layout → Prop where
  | mounted {blueprint : Blueprint} {initial : Option Json} {tree : Tree}
      (mounted : Tree.mount blueprint initial = .ok tree) : Remembers tree tree.layout
  | after {tree : Tree} {layout : Layout} (remembers : Remembers tree layout) (operation : Operation) :
      Remembers (tree.after operation) (layout.after (tree.answer operation).isOk operation)

theorem Remembers.reachable {tree : Tree} {layout : Layout} (remembers : tree.Remembers layout) :
    tree.Reachable := by
  induction remembers with
  | mounted mounted => exact .mounted mounted
  | after _ operation reachable => exact .after reachable operation

theorem Reachable.remembers {tree : Tree} (reachable : tree.Reachable) :
    ∃ layout, tree.Remembers layout := by
  induction reachable with
  | mounted mounted => exact ⟨_, .mounted mounted⟩
  | after _ operation remembers =>
      obtain ⟨layout, remembers⟩ := remembers
      exact ⟨_, .after remembers operation⟩

/-! ## Where the root stands -/

variable {tree after : Tree}

theorem below?_eq_some_iff {path : Path} {segments : List String} :
    tree.below? path = some segments ↔ path = tree.here.extend ⟨segments⟩ := by
  rw [below?, Option.map_eq_some_iff]
  simp only [Path.stripFront?_eq_some_iff]
  constructor
  · rintro ⟨rest, rfl, rfl⟩
    rfl
  · rintro rfl
    exact ⟨⟨segments⟩, rfl, rfl⟩

theorem here_change (place : Path) (edit : List String → Node → Node) :
    (tree.change place edit).here = tree.here := by
  unfold change
  split
  · rfl
  · rfl

theorem Note.here (noted : Note tree after) : after.here = tree.here := by
  cases noted with
  | validateNode => exact here_change _ _
  | validateFieldset => exact here_change _ _
  | setErrors => exact here_change _ _
  | addErrors => exact here_change _ _
  | _ => rfl

theorem Move.here (move : Move tree after) : after.here = tree.here := by
  cases move with
  | note noted => exact noted.here
  | setValue => exact here_change _ _
  | touch => exact here_change _ _
  | setSelfDisabled => exact here_change _ _
  | openDialog => exact here_change _ _
  | closeDialog => exact here_change _ _
  | goTo => exact here_change _ _
  | _ => rfl

theorem Moves.here (moves : Moves tree after) : after.here = tree.here :=
  moves.keeps (motive := fun later => later.here = tree.here) (fun move same => move.here.trans same) rfl

theorem Course.here {operation : Operation} (course : Course tree operation after) : after.here = tree.here := by
  cases course with
  | moves moves => exact moves.here
  | addSibling _ _ moves => exact moves.here.trans (here_change _ _)
  | removeSibling _ _ moves => exact moves.here.trans (here_change _ _)

/-! ## Remembered paths along a run -/

/-- No move makes an element remember another path. -/
theorem Moves.layout (moves : Moves tree after) : after.layout = tree.layout := by
  rw [Tree.layout, Tree.layout, moves.here, moves.retains.layout]

/-- If a change of what a node remembers goes with a change of the node, it may be made in the tree. -/
theorem changeAt_layout {path : Path} {node moved : Node} {edit : Layout → Layout}
    (stands : tree.node? path = some node) (agree : edit (node.layout path) = moved.layout path) :
    tree.layout.changeAt edit path = (tree.change path (Node.modify fun _ => moved)).layout := by
  obtain ⟨segments, below, found⟩ := Option.bind_eq_some_iff.mp stands
  rw [change_of_below below]
  obtain rfl := below?_eq_some_iff.mp below
  refine Node.changeAt_layout ?_
  intro inner there
  rw [found] at there
  cases there
  exact agree

theorem layout_after {operation : Operation} {cycle : Cycle} (done : tree.answer operation = .ok cycle) :
    cycle.tree.layout = tree.layout.after true operation := by
  cases operation with
  | addSibling path behind =>
      obtain ⟨-, node, extended, index, stands, added, rfl⟩ := addSibling_eq_ok done
      rw [Moves.layout (Cycle.settle_moves ⟨_, _⟩)]
      exact (changeAt_layout stands (Node.layout_addSibling added path)).symm
  | removeSibling path index =>
      obtain ⟨-, node, reduced, stands, removed, rfl⟩ := removeSibling_eq_ok done
      rw [Moves.layout (Cycle.settle_moves ⟨_, _⟩)]
      exact (changeAt_layout stands (Node.layout_removeSibling removed path)).symm
  | _ =>
      cases answer_course done with
      | moves moves => exact moves.layout

/-- What is remembered is what the elements would remember had they been built where they stand. -/
theorem Remembers.layout_eq {layout : Layout} (remembers : tree.Remembers layout) :
    layout = tree.layout := by
  induction remembers with
  | mounted => rfl
  | @after tree layout _ operation same =>
      subst same
      unfold Tree.after
      split
      · rename_i cycle done
        rw [done]
        exact (layout_after done).symm
      · rename_i refusal refused
        rw [refused]
        rfl

end Tree

end Formwork
