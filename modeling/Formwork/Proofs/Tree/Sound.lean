import Formwork.Proofs.Node.Sound
import Formwork.Proofs.Tree.Reachable

/-!
# Reachable trees are sound

Every move keeps the root of a tree sound, and so do siblings that come and go. So in a reachable tree
every field holds values of the kind that its widget stores, and every series keeps to its bounds
(`Tree.Reachable.sound`).
-/

set_option autoImplicit false

namespace Formwork.Tree

variable {tree after : Tree}

/-- A sound node may be put in the place of another one. -/
theorem sound_modify {place : Path} {node moved : Node} (sound : tree.root.Sound)
    (stands : tree.node? place = some node) (isSound : moved.Sound) :
    (tree.change place (Node.modify fun _ => moved)).root.Sound := by
  unfold change
  split
  · rename_i segments below
    rw [node?, below] at stands
    exact sound.modify stands isSound
  · exact sound

/-- Every node of a sound tree is sound. -/
theorem sound_node? {place : Path} {node : Node} (regular : tree.root.Regular) (sound : tree.root.Sound)
    (stands : tree.node? place = some node) : node.Sound := by
  obtain ⟨segments, -, found⟩ := Option.bind_eq_some_iff.mp stands
  exact sound.stands ((Node.get?_eq_some_iff regular).mp found)

theorem Move.sound (move : Move tree after) (regular : tree.root.Regular) (sound : tree.root.Sound) :
    after.root.Sound := by
  rcases move.root with same | moved
  · rwa [same]
  · exact sound.move regular moved

theorem Moves.sound (moves : Moves tree after) (regular : tree.root.Regular) (sound : tree.root.Sound) :
    after.root.Sound :=
  (moves.keeps (motive := fun later => later.root.Regular ∧ later.root.Sound)
    (fun move holds => ⟨holds.1.follows move.retains.toFollows, move.sound holds.1 holds.2⟩)
    ⟨regular, sound⟩).2

theorem Course.sound {operation : Operation} (course : Course tree operation after)
    (regular : tree.root.Regular) (sound : tree.root.Sound) : after.root.Sound := by
  cases course with
  | moves moves => exact moves.sound regular sound
  | addSibling stands added moves =>
      exact moves.sound (regular.follows (root_follows_modify stands (Node.follows_addSibling added)))
        (sound_modify sound stands ((sound_node? regular sound stands).addSibling added))
  | removeSibling stands removed moves =>
      exact moves.sound (regular.follows (root_follows_modify stands (Node.follows_removeSibling removed)))
        (sound_modify sound stands ((sound_node? regular sound stands).removeSibling removed))

theorem mount_sound {blueprint : Blueprint} {initial : Option Json}
    (mounted : Tree.mount blueprint initial = .ok tree) : tree.root.Sound := by
  obtain ⟨here, built, nodeBuilt, rfl⟩ := mount_eq_ok mounted
  exact ((((Node.build_sound nodeBuilt).fill _).refresh _ _).markPrefilled).latch _ _

/-- In a reachable tree every field holds values of the kind that its widget stores, and every series has
enough live siblings and not too many siblings. -/
theorem Reachable.sound (reachable : tree.Reachable) : tree.root.Sound := by
  induction reachable with
  | mounted mounted => exact mount_sound mounted
  | @after tree reachable operation sound => exact (tree.after_course operation).sound reachable.regular sound

end Formwork.Tree
