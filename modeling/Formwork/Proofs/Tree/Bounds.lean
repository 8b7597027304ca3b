import Formwork.Proofs.Node.Bounds
import Formwork.Proofs.Tree.Paths
import Formwork.Proofs.Tree.Sound

/-!
# The bounds of series

The siblings of a series that was just mounted are counted by its plan and by its part of the initial data
(`Tree.Populated`). After that siblings come, go and are touched one by one, and whatever the order, every
reachable tree keeps to the bounds that its collections declare (`Tree.KeepsBounds`).
-/

set_option autoImplicit false

namespace Formwork.Tree

variable {tree : Tree}

/-- A series has a live sibling for each entry of its part of the initial data that there is room for, and
blank ones up to the least number; behind these stand as many pristine siblings as are offered and have room. -/
def Populated (initial : Option Json) (tree : Tree) : Prop :=
  ∀ segments frame template siblings, tree.root.Stands segments (.series frame template siblings) →
    siblings.map Sibling.isPristine = frame.plan.marksAtStart
      (InitialData.siblingEntries (InitialData.along segments (initial.map InitialData.expandKeys))).length

/-- What holds of the siblings of every collection, those of pristine siblings included. -/
structure KeepsBounds (tree : Tree) : Prop where
  /-- A collection that cannot be repeated has a single sibling, which is not pristine. -/
  single : ∀ path node frame, (path, node) ∈ tree.nodes → node.frame? = some frame →
    frame.plan.isRepeatable = false → node.marks = [false]
  /-- A stepper cannot be repeated, so it has a single sibling too. -/
  stepper : ∀ path node frame, (path, node) ∈ tree.nodes → node.isStepper = true → node.frame? = some frame →
    frame.plan.isRepeatable = false
  /-- A collection that can be repeated has at least the least number of siblings that are not pristine. -/
  enough : ∀ path node frame, (path, node) ∈ tree.nodes → node.frame? = some frame →
    frame.plan.isRepeatable = true → frame.plan.minSiblings.getD 0 ≤ node.marks.count false
  /-- It never has more siblings than the greatest number. -/
  room : ∀ path node frame greatest, (path, node) ∈ tree.nodes → node.frame? = some frame →
    frame.plan.maxSiblings = some greatest → node.marks.length ≤ greatest
  /-- No stepper stands beneath it. -/
  apart : ∀ path node frame rest inner, (path, node) ∈ tree.nodes → node.frame? = some frame →
    frame.plan.isRepeatable = true → (path.extend rest, inner) ∈ tree.nodes → inner.isStepper = false
  /-- A pristine sibling can always be removed from its collection, and from an idle tree. -/
  pristineRemovable : ∀ path node index, (path, node) ∈ tree.nodes → node.marks[index]? = some true →
    (∃ reduced, node.removeSibling path index = .ok reduced) ∧
      (tree.isBusy = false → ∃ cycle, tree.removeSibling path index = .ok cycle)
  /-- A removal that is accepted leaves at least the least number of siblings that are not pristine. -/
  removalKeeps : ∀ path node index reduced, (path, node) ∈ tree.nodes →
    node.removeSibling path index = .ok reduced → ∃ frame, reduced.frame? = some frame ∧
      reduced.marks = node.marks.eraseIdx index ∧
        frame.plan.minSiblings.getD 0 ≤ reduced.marks.count false

theorem sound_of_mem (reachable : tree.Reachable) {path : Path} {node : Node} (listed : (path, node) ∈ tree.nodes) :
    node.Sound := by
  obtain ⟨segments, -, stands⟩ := Node.mem_nodes_iff.mp listed
  exact reachable.sound.stands stands

/-! ## Mounting -/

theorem mount_populated {blueprint : Blueprint} {initial : Option Json}
    (mounted : Tree.mount blueprint initial = .ok tree) : tree.Populated initial := by
  obtain ⟨here, built, nodeBuilt, rfl⟩ := mount_eq_ok mounted
  intro segments frame template siblings stands
  have planted := Node.build_planted nodeBuilt
  have regular := Node.build_regular blueprint.distinct nodeBuilt
  let bare := Tree.planted blueprint initial built
  -- Nothing that happens after the initial data were put in place changes a row of siblings.
  have rows : bare.refresh.prefilled.latch.root.rows bare.here = bare.root.rows bare.here := by
    calc bare.refresh.prefilled.latch.root.rows bare.here
        = bare.refresh.root.markPrefilled.rows bare.here := Node.rows_latch _ _ _
      _ = bare.refresh.root.rows bare.here := Node.rows_markPrefilled _ _
      _ = bare.root.rows bare.here := Node.rows_refresh _ _ _
  have listed : (bare.here.extend ⟨segments⟩, frame.plan, siblings.map Sibling.isPristine) ∈
      bare.refresh.prefilled.latch.root.rows bare.here :=
    Node.mem_rows_iff.mpr ⟨segments, frame, template, siblings, rfl, stands, rfl, rfl⟩
  rw [rows] at listed
  obtain ⟨others, origin, blank, entries, same, stood, samePlan, sameMarks⟩ := Node.mem_rows_iff.mp listed
  cases Path.extend_injective same
  rw [← sameMarks, ← samePlan]
  exact planted.marks_fill regular _ stood

theorem Reachable.apart (reachable : tree.Reachable) : tree.root.plan.isApart = true := by
  induction reachable with
  | mounted mounted =>
      obtain ⟨here, built, nodeBuilt, rfl⟩ := mount_eq_ok mounted
      rw [(follows_built _ _ built).plan]
      exact (Node.build_apart nodeBuilt).1
  | @after tree _ operation apart => rwa [(tree.after_course operation).follows.plan]

/-! ## Reachable trees -/

theorem Reachable.keepsBounds (reachable : tree.Reachable) : tree.KeepsBounds where
  single path node frame listed framed notRepeatable := by
    have sound := sound_of_mem reachable listed
    cases sound with
    | form => cases framed
    | collection => rfl
    | series repeats =>
        cases framed
        simp [repeats] at notRepeatable
  stepper path node frame listed stepper framed := by
    have sound := sound_of_mem reachable listed
    cases sound with
    | form => cases framed
    | collection single =>
        cases framed
        exact single
    | series => cases stepper
  enough path node frame listed framed repeats := by
    have sound := sound_of_mem reachable listed
    cases sound with
    | form => cases framed
    | collection single =>
        cases framed
        simp [single] at repeats
    | series _ _ _ _ enough _ =>
        cases framed
        rw [Node.marks_series, Node.count_marks]
        exact enough
  room path node frame greatest listed framed bound := by
    have sound := sound_of_mem reachable listed
    cases sound with
    | form => cases framed
    | collection single =>
        cases framed
        simp [CollectionPlan.isRepeatable, bound] at single
    | series _ _ _ _ _ room =>
        cases framed
        rw [Node.marks_series, List.length_map]
        exact room greatest bound
  apart path node frame rest inner listed framed repeats listedInner := by
    have sound := sound_of_mem reachable listed
    obtain ⟨front, rfl, stands⟩ := Node.mem_nodes_iff.mp listed
    obtain ⟨segments, same, stood⟩ := Node.mem_nodes_iff.mp listedInner
    rw [Path.extend_assoc] at same
    cases Path.extend_injective same
    cases sound with
    | form => cases framed
    | collection single =>
        cases framed
        simp [single] at repeats
    | series =>
        cases framed
        exact Node.not_stepper_beneath reachable.regular reachable.apart stands repeats stood
  pristineRemovable path node index listed pristine := by
    obtain ⟨reduced, removed⟩ := (sound_of_mem reachable listed).removeSibling_of_pristine pristine path
    refine ⟨⟨reduced, removed⟩, fun idle => ?_⟩
    have stands := (node?_eq_some_iff reachable.regular).mpr listed
    simp [Tree.removeSibling, idle, stands, removed]
  removalKeeps path node index reduced listed removed := by
    obtain ⟨frame, template, siblings, rfl, rfl, enough⟩ := Node.removeSibling_eq_ok removed
    refine ⟨frame, rfl, (List.eraseIdx_map ..).symm, ?_⟩
    rw [Node.marks_series, Node.count_marks]
    exact enough

/-- A mounted tree has the siblings that its initial data and its plans ask for, and keeps to the bounds of
all collections after any operations. -/
theorem mount_keepsBounds {blueprint : Blueprint} {initial : Option Json}
    (mounted : Tree.mount blueprint initial = .ok tree) :
    tree.Populated initial ∧ ∀ operations, (tree.run operations).KeepsBounds :=
  ⟨mount_populated mounted, fun operations => ((Reachable.mounted mounted).run operations).keepsBounds⟩

/-- Two orders are offered to begin with. -/
theorem keepsBounds_orders : ∃ tree, Tree.mount orders none = .ok tree ∧ tree.root.marks = [true, true] ∧
    tree.Populated none ∧ ∀ operations, (tree.run operations).KeepsBounds := by
  obtain ⟨tree, mounted⟩ : ∃ tree, Tree.mount orders none = .ok tree := ⟨_, rfl⟩
  have marks : (Tree.mount orders none).toOption.map (fun tree => tree.root.marks) = some [true, true] := rfl
  rw [mounted] at marks
  exact ⟨tree, mounted, Option.some.inj marks, mount_keepsBounds mounted⟩

end Formwork.Tree
