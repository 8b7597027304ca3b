import Formwork.Proofs.Node.Restoring
import Formwork.Proofs.Tree.Payload

/-!
# Mounting again with the data that were sent

A description can be mounted with the payload of any tree that was mounted from it, whatever
operations the tree went through. In the new tree every series has as many live siblings as the one
that it matches, every visible field that was sent holds its value again, and every hidden one the
blank value of its widget (`Tree.ReachedFrom.restored`).
-/

set_option autoImplicit false

namespace Formwork

namespace Form

variable {content other : Form} (restores : content.Restores other)
include restores

theorem Restores.refresh (lookup : Lookup) (path : Path) : content.Restores (other.refresh lookup path) :=
  restores.congr (other.holdings_refresh .root lookup path)

theorem Restores.latch (lookup : Lookup) (path : Path) : content.Restores (other.latch lookup path) :=
  restores.congr (other.holdings_latch .root lookup path)

end Form

namespace Tree

/-! ## Trees of one description -/

/-- A tree that was mounted from a description and then went through operations. -/
inductive ReachedFrom (blueprint : Blueprint) : Tree → Prop where
  | mounted {initial : Option Json} {tree : Tree} (mounted : Tree.mount blueprint initial = .ok tree) :
      ReachedFrom blueprint tree
  | after {tree : Tree} (reached : ReachedFrom blueprint tree) (operation : Operation) :
      ReachedFrom blueprint (tree.after operation)

variable {blueprint : Blueprint} {tree : Tree}

theorem ReachedFrom.reachable (reached : ReachedFrom blueprint tree) : tree.Reachable := by
  induction reached with
  | mounted mounted => exact .mounted mounted
  | after _ operation reachable => exact .after reachable operation

/-- All trees of one description follow the node that was built for it, whatever data it is given. -/
theorem ReachedFrom.exists_built (reached : ReachedFrom blueprint tree) :
    ∃ here built, Node.build here .top blueprint.root = .ok built ∧ tree.root.Follows built ∧
      tree.here = (planted blueprint none built).here ∧ ∀ initial,
        Tree.mount blueprint initial = .ok (planted blueprint initial built).refresh.prefilled.latch := by
  induction reached with
  | @mounted initial tree mounted =>
      obtain ⟨built, nodeBuilt, same⟩ := bind_eq_ok.mp mounted
      rw [pure_eq_ok] at same
      refine ⟨_, built, nodeBuilt, ?_, same ▸ rfl, fun other => bind_eq_ok.mpr ⟨built, nodeBuilt, rfl⟩⟩
      rw [← same]
      exact follows_built blueprint initial built
  | @after tree _ operation ih =>
      obtain ⟨here, built, nodeBuilt, follows, sameHere, mounts⟩ := ih
      have course := tree.after_course operation
      exact ⟨here, built, nodeBuilt, course.follows.trans follows, course.here.trans sameHere, mounts⟩

/-! ## Restoring -/

variable (tree) in
/-- A path in a tree leads to the same place as a path in another tree does. -/
def Matches (again : Tree) (path place : Path) : Prop :=
  ∃ segments others, path = tree.here.extend ⟨segments⟩ ∧ place = again.here.extend ⟨others⟩ ∧
    tree.root.Matches again.root segments others

variable (tree) in
/-- Another tree holds the data that a tree sends. -/
structure Restored (again : Tree) : Prop where
  here : again.here = tree.here
  /-- A place has one match at most. -/
  unique : ∀ path first second, tree.Matches again path first → tree.Matches again path second → first = second
  /-- Every series outside pristine siblings has a match with as many live siblings. -/
  series : ∀ path frame template siblings, (path, Node.series frame template siblings) ∈ tree.nodes →
    ¬ tree.Offered path → ∃ place otherFrame otherTemplate others, tree.Matches again path place ∧
      (place, Node.series otherFrame otherTemplate others) ∈ again.nodes ∧ ¬ again.Offered place ∧
        Node.liveCount others = Node.liveCount siblings
  /-- There are no other series outside pristine siblings. -/
  seriesOnly : ∀ place frame template others, (place, Node.series frame template others) ∈ again.nodes →
    ¬ again.Offered place → ∃ path otherFrame otherTemplate siblings, tree.Matches again path place ∧
      (path, Node.series otherFrame otherTemplate siblings) ∈ tree.nodes ∧ ¬ tree.Offered path ∧
        Node.liveCount others = Node.liveCount siblings
  visible : ∀ path field, (path, field) ∈ tree.fields → ¬ tree.Offered path → field.isButton = false →
    field.disabled = false → field.hidden = false → ∃ place other, tree.Matches again path place ∧
      (place, other) ∈ again.fields ∧ other.value = field.value
  hidden : ∀ path field, (path, field) ∈ tree.fields → ¬ tree.Offered path → field.isButton = false →
    field.disabled = false → field.hidden = true → ∃ place other, tree.Matches again path place ∧
      (place, other) ∈ again.fields ∧ other.value = field.plan.widget.blank

variable {again : Tree}

/-- A field that is sent has a match that holds its value again. -/
theorem exists_restored (mirrors : tree.root.Mirrors Form.Restores again.root) (regular : tree.root.Regular)
    (regularAgain : again.root.Regular) {path : Path} {field : Field} (listed : (path, field) ∈ tree.fields)
    (shown : ¬ tree.Offered path) (sent : field.isSent = true) :
    ∃ place other, tree.Matches again path place ∧ (place, other) ∈ again.fields ∧
      other.value = field.restored := by
  obtain ⟨front, content, names, rfl, form, member⟩ := Node.mem_fields_iff.mp listed
  have shownForm : ¬ tree.root.Offered front := fun offered => shown (offered_iff.mpr (offered.append names))
  obtain ⟨places, copy, standsCopy, -, mirrorsForm, onward⟩ :=
    mirrors.exists_match regular regularAgain form shownForm
  cases mirrorsForm with
  | @form _ other restores =>
      obtain ⟨held, holds, same⟩ := restores names field member sent
      obtain ⟨others, restored, place, rfl, standsOther⟩ := Member.mem_views_iff.mp holds
      injection place.trans (Path.root_extend _) with sameNames
      subst sameNames
      exact ⟨_, restored, ⟨_, _, rfl, rfl, onward names names (.form content other names)⟩,
        Node.mem_fields_iff.mpr ⟨places, other, names, rfl, standsCopy, standsOther⟩, same⟩

/-- A series outside pristine siblings has a match with as many live siblings. -/
theorem exists_series {related : Form → Form → Prop} (mirrors : tree.root.Mirrors related again.root)
    (regular : tree.root.Regular) (regularAgain : again.root.Regular) {path : Path} {frame : Frame}
    {template : List (String × Node)} {siblings : List Sibling}
    (listed : (path, Node.series frame template siblings) ∈ tree.nodes) (shown : ¬ tree.Offered path) :
    ∃ place otherFrame otherTemplate others, tree.Matches again path place ∧
      (place, Node.series otherFrame otherTemplate others) ∈ again.nodes ∧ ¬ again.Offered place ∧
        Node.liveCount others = Node.liveCount siblings := by
  obtain ⟨segments, rfl, stands⟩ := Node.mem_nodes_iff.mp listed
  obtain ⟨places, copy, standsCopy, shownCopy, mirrorsSeries, onward⟩ :=
    mirrors.exists_match regular regularAgain stands (offered_iff.not.mp shown)
  have isMatch := onward [] [] (.here _ _)
  rw [List.append_nil, List.append_nil] at isMatch
  cases mirrorsSeries with
  | series count _ _ =>
      exact ⟨_, _, _, _, ⟨_, _, rfl, rfl, isMatch⟩, Node.mem_nodes_iff.mpr ⟨places, rfl, standsCopy⟩,
        offered_iff.not.mpr shownCopy, count.symm⟩

theorem Matches.symm {path place : Path} (isMatch : tree.Matches again path place) :
    again.Matches tree place path := by
  obtain ⟨segments, others, rfl, rfl, isMatch⟩ := isMatch
  exact ⟨others, segments, rfl, rfl, isMatch.symm⟩

/-- Mounting a description again with the payload of one of its trees succeeds, and the new tree holds the
data of the old one. -/
theorem ReachedFrom.restored (reached : tree.ReachedFrom blueprint) :
    ∃ again, Tree.mount blueprint (some tree.payload) = .ok again ∧ tree.Restored again := by
  obtain ⟨here, built, nodeBuilt, follows, sameHere, mounts⟩ := reached.exists_built
  have regular := reached.reachable.regular
  have filled : tree.root.Mirrors Form.Restores (built.fill (some (InitialData.expandKeys tree.payload))) :=
    Node.mirrors_fill regular reached.reachable.sound (Node.build_sound nodeBuilt) follows.plan.symm
  have mirrors : tree.root.Mirrors Form.Restores
      (planted blueprint (some tree.payload) built).refresh.prefilled.latch.root :=
    ((filled.map (fun path _ _ restores => restores.refresh _ path) _ _).markPrefilled).map
      (fun path _ _ restores => restores.latch _ path) _ _
  have mounted := mounts (some tree.payload)
  have regularAgain := (Reachable.mounted mounted).regular
  refine ⟨_, mounted, {
    here := ?_
    unique := ?_
    series := fun path frame template siblings listed shown =>
      exists_series mirrors regular regularAgain listed shown
    seriesOnly := fun place frame template others listed shown => ?_
    visible := fun path field listed shown isData enabled visible => ?_
    hidden := fun path field listed shown isData enabled hidden => ?_ }⟩
  · rw [sameHere]
    rfl
  · rintro path first second ⟨segments, others, rfl, rfl, isMatch⟩ ⟨segments', others', same, rfl, isMatch'⟩
    injection Path.extend_injective same with same
    subst same
    rw [isMatch.unique regular regularAgain isMatch']
  · obtain ⟨path, _, _, _, isMatch, listed, shown, count⟩ :=
      exists_series mirrors.symm regularAgain regular listed shown
    exact ⟨path, _, _, _, isMatch.symm, listed, shown, count.symm⟩
  · have sent : field.isSent = true := by simp [Field.isSent, isData, enabled]
    obtain ⟨place, other, isMatch, there, same⟩ :=
      exists_restored mirrors regular regularAgain listed shown sent
    rw [Field.restored, visible, if_neg Bool.false_ne_true] at same
    exact ⟨place, other, isMatch, there, same⟩
  · have sent : field.isSent = true := by simp [Field.isSent, isData, enabled]
    obtain ⟨place, other, isMatch, there, same⟩ :=
      exists_restored mirrors regular regularAgain listed shown sent
    rw [Field.restored, hidden, if_pos rfl] at same
    exact ⟨place, other, isMatch, there, same⟩

/-- The orders can be mounted again with their payload after the second one was filled in. -/
theorem restored_orders : ∃ tree, Tree.mount orders none = .ok tree ∧
    ∃ again, Tree.mount orders
        (some (tree.after (.setValue ⟨["shop", "1", "order", "size"]⟩ (.text "large"))).payload) = .ok again ∧
      (tree.after (.setValue ⟨["shop", "1", "order", "size"]⟩ (.text "large"))).Restored again := by
  obtain ⟨tree, mounted⟩ : ∃ tree, Tree.mount orders none = .ok tree := ⟨_, rfl⟩
  exact ⟨tree, mounted, ReachedFrom.restored (.after (.mounted mounted) _)⟩

end Tree

end Formwork
