import Formwork.Proofs.Node.Buttons
import Formwork.Proofs.Tree.Remembering

/-!
# What building fixes in a tree

What holds of every form and frame that is built, and is about what building fixes, holds of all forms and
frames of a reachable tree (`Tree.Reachable.built`). As long as no sibling comes or goes, what building
fixes does not even change its place (`Tree.Moves.listing`).
-/

set_option autoImplicit false

namespace Formwork.Tree

variable {tree after : Tree}

/-! ## Listings -/

section Listing

variable {α : Type} (ofForm : Path → Form → List α) (ofFrame : Path → Frame → List α)

/-- Moves keep every listing of what building fixes. -/
theorem Moves.listing (moves : Moves tree after) :
    after.root.listing (fun place content => ofForm place content.asBuilt)
        (fun place frame => ofFrame place frame.asBuilt) after.here =
      tree.root.listing (fun place content => ofForm place content.asBuilt)
        (fun place frame => ofFrame place frame.asBuilt) tree.here := by
  induction moves with
  | refl => rfl
  | tail _ last same =>
      rw [← same, last.here]
      rcases last.root with unchanged | moved
      · rw [unchanged]
      · exact Node.listing_move ofForm ofFrame moved _

end Listing

/-! ## Properties -/

variable {ofForm : Form → Prop} {ofFrame : Frame → Prop}

theorem Moves.built (moves : Moves tree after) (regular : tree.root.Regular)
    (built : tree.root.Built ofForm ofFrame) : after.root.Built ofForm ofFrame := by
  refine (moves.keeps (motive := fun later => later.root.Regular ∧ later.root.Built ofForm ofFrame)
    (fun move holds => ⟨holds.1.follows move.retains.toFollows, ?_⟩) ⟨regular, built⟩).2
  rcases move.root with same | moved
  · rw [same]
    exact holds.2
  · exact holds.2.move holds.1 moved

/-- A node that was built like everything in the tree may be put in the place of another one. -/
theorem built_modify {place : Path} {node moved : Node} (built : tree.root.Built ofForm ofFrame)
    (stands : tree.node? place = some node) (isBuilt : moved.Built ofForm ofFrame) :
    (tree.change place (Node.modify fun _ => moved)).root.Built ofForm ofFrame := by
  unfold change
  split
  · rename_i segments below
    rw [node?, below] at stands
    exact built.modify stands isBuilt
  · exact built

theorem built_node? {place : Path} {node : Node} (regular : tree.root.Regular)
    (built : tree.root.Built ofForm ofFrame) (stands : tree.node? place = some node) :
    node.Built ofForm ofFrame := by
  obtain ⟨segments, -, found⟩ := Option.bind_eq_some_iff.mp stands
  exact built.stands ((Node.get?_eq_some_iff regular).mp found)

theorem Course.built {operation : Operation} (course : Course tree operation after)
    (regular : tree.root.Regular) (built : tree.root.Built ofForm ofFrame) : after.root.Built ofForm ofFrame := by
  cases course with
  | moves moves => exact moves.built regular built
  | addSibling stands added moves =>
      exact moves.built (regular.follows (root_follows_modify stands (Node.follows_addSibling added)))
        (built_modify built stands ((built_node? regular built stands).addSibling added))
  | removeSibling stands removed moves =>
      exact moves.built (regular.follows (root_follows_modify stands (Node.follows_removeSibling removed)))
        (built_modify built stands ((built_node? regular built stands).removeSibling removed))

theorem mount_built (always : Node.ByBuilding ofForm ofFrame) {blueprint : Blueprint} {initial : Option Json}
    (mounted : Tree.mount blueprint initial = .ok tree) : tree.root.Built ofForm ofFrame := by
  obtain ⟨here, node, nodeBuilt, rfl⟩ := mount_eq_ok mounted
  have regular := (Node.build_regular blueprint.distinct nodeBuilt).follows
    (Node.follows_fill (initial.map InitialData.expandKeys) node)
  have filled := (Node.build_built always nodeBuilt).fill (initial.map InitialData.expandKeys)
  have refreshed := Moves.built (.single (.refresh (planted blueprint initial node))) regular filled
  have regularLater := (regular.follows (Move.refresh (planted blueprint initial node)).retains.toFollows).follows
    (Node.follows_markPrefilled _)
  exact Moves.built (.single (.latch _)) regularLater refreshed.markPrefilled

/-- What holds of everything that is built holds throughout every reachable tree. -/
theorem Reachable.built (always : Node.ByBuilding ofForm ofFrame) (reachable : tree.Reachable) :
    tree.root.Built ofForm ofFrame := by
  induction reachable with
  | mounted mounted => exact mount_built always mounted
  | @after tree reachable operation built => exact (tree.after_course operation).built reachable.regular built

/-- A field of a reachable tree has a button exactly if its widget is one. -/
theorem Reachable.isButton_eq (reachable : tree.Reachable) {path : Path} {field : Field}
    (listed : (path, field) ∈ tree.fields) : field.isButton = (field.plan.widget == .button) :=
  (reachable.built Node.buttons_byBuilding).isButton listed

end Formwork.Tree
