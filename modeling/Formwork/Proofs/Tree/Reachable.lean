import Formwork.Proofs.Tree.Operations

/-!
# Reachable trees

A tree is reachable if it was mounted from a description and then went through any number of
operations, accepted or refused (`Tree.Reachable`). What holds of a mounted tree and is kept by
every move and by siblings that come and go holds of every reachable tree. The first such fact is that
the root of a reachable tree is regular (`Tree.Reachable.regular`).
-/

set_option autoImplicit false

namespace Formwork

namespace Tree

/-- A tree that was mounted and then went through operations. -/
inductive Reachable : Tree → Prop where
  | mounted {blueprint : Blueprint} {initial : Option Json} {tree : Tree}
      (mounted : Tree.mount blueprint initial = .ok tree) : Reachable tree
  | after {tree : Tree} (reachable : Reachable tree) (operation : Operation) :
      Reachable (tree.after operation)

/-- The tree after some operations one after the other. -/
def run (tree : Tree) (operations : List Operation) : Tree := operations.foldl Tree.after tree

theorem Reachable.run {tree : Tree} (reachable : tree.Reachable) (operations : List Operation) :
    (tree.run operations).Reachable := by
  induction operations generalizing tree with
  | nil => exact reachable
  | cons operation rest ih => exact ih (.after reachable operation)

/-- A form for one order after another: two are offered, each with a size and a button that sends the
whole form. -/
def orders : Blueprint where
  namespaceText := some "shop"
  root := .collection { CollectionPlan.plain with extraSiblings := some 2 }
    [("order", .form ⟨none, none, .absent⟩ none
      [("size", .field .standard),
        ("send", .field { FieldPlan.standard with
          widget := .button
          action := some "submit -> reset !~ clearErrors" })])]
  distinct := by decide

/-- What every move keeps is kept by all moves together. -/
theorem Moves.keeps {motive : Tree → Prop}
    (move : ∀ {tree after}, Move tree after → motive tree → motive after) {tree after : Tree}
    (moves : Moves tree after) (holds : motive tree) : motive after := by
  induction moves with
  | refl => exact holds
  | tail _ last kept => exact move last kept

/-! ## The root stays regular -/

theorem change_of_below {tree : Tree} {place : Path} {segments : List String}
    (below : tree.below? place = some segments) (edit : List String → Node → Node) :
    tree.change place edit = { tree with root := edit segments tree.root } := by
  rw [change, below]

/-- The root follows its earlier self if a node is replaced by one that follows it. -/
theorem root_follows_modify {tree : Tree} {place : Path} {node moved : Node}
    (stands : tree.node? place = some node) (follows : moved.Follows node) :
    (tree.change place (Node.modify fun _ => moved)).root.Follows tree.root := by
  unfold change
  split
  · rename_i segments below
    rw [node?, below] at stands
    exact Node.follows_modify stands follows
  · exact .refl _

theorem Move.retains {tree after : Tree} (move : Move tree after) : after.root.Retains tree.root := by
  rcases move.root with same | moved
  · rw [same]
    exact .refl _
  · exact moved.retains

theorem Moves.retains {tree after : Tree} (moves : Moves tree after) : after.root.Retains tree.root :=
  moves.keeps (motive := fun later => later.root.Retains tree.root)
    (fun move retained => move.retains.trans retained) (.refl _)

theorem Course.follows {tree after : Tree} {operation : Operation} (course : Course tree operation after) :
    after.root.Follows tree.root := by
  cases course with
  | moves moves => exact moves.retains.toFollows
  | addSibling stands added moves =>
      exact moves.retains.toFollows.trans (root_follows_modify stands (Node.follows_addSibling added))
  | removeSibling stands removed moves =>
      exact moves.retains.toFollows.trans (root_follows_modify stands (Node.follows_removeSibling removed))

/-- A mounted tree follows the node that was built for it. -/
theorem follows_built (blueprint : Blueprint) (initial : Option Json) (built : Node) :
    (planted blueprint initial built).refresh.prefilled.latch.root.Follows built := by
  have filled := Node.follows_fill (initial.map InitialData.expandKeys) built
  have refreshed := (Move.refresh (planted blueprint initial built)).retains.toFollows.trans filled
  have prefilled := (Node.follows_markPrefilled _).trans refreshed
  exact (Move.latch (planted blueprint initial built).refresh.prefilled).retains.toFollows.trans prefilled

theorem mount_regular {blueprint : Blueprint} {initial : Option Json} {tree : Tree}
    (mounted : Tree.mount blueprint initial = .ok tree) : tree.root.Regular := by
  obtain ⟨here, built, nodeBuilt, rfl⟩ := mount_eq_ok mounted
  exact (Node.build_regular blueprint.distinct nodeBuilt).follows (follows_built blueprint initial built)

/-- In every reachable tree the names of members are distinct and valid, and the siblings of every
series have the members of its template. -/
theorem Reachable.regular {tree : Tree} (reachable : tree.Reachable) : tree.root.Regular := by
  induction reachable with
  | mounted mounted => exact mount_regular mounted
  | @after tree _ operation regular => exact regular.follows (tree.after_course operation).follows

end Tree

end Formwork
