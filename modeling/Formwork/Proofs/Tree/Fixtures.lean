import Formwork.Proofs.Node.Assembling
import Formwork.Proofs.Tree.Operations
import Formwork.Proofs.Building

/-!
# What initial data cannot change

Initial data can be anything, and they decide which values fields hold and how many siblings a series has. Beneath a
series nothing else can be said of them. Everything outside of series is there whatever the data are
(`Node.fixtures`), and so is the template of every series. What is left of a node without values, flags, messages,
latches, visited steps and siblings is its skeleton (`Node.skeleton`), and nothing that happens at mounting touches it.

So a description can be mounted either with all data or with none, and all its trees have the same skeleton
(`Tree.mount_alike`). This is so also if the data are handed down while the nodes are built (`Tree.assemble`).
-/

set_option autoImplicit false

namespace Formwork

open Formwork.Text

/-- The item as it was built. -/
def Item.asBuilt (item : Item) : Item := (item.mapField Field.asBuilt).mapGroup Group.asBuilt

namespace Node

mutual
/-- The forms, fieldsets and fields at and beneath a node at a path that stand outside every series, in the order of
rendering. A form is listed as its group. -/
def fixtures (path : Path) : Node → List (Path × Item)
  | .form content => (path, .fieldset content.group) :: Member.itemsAll path content.members
  | .collection _ _ members => memberFixtures path members
  | .series _ _ _ => []

/-- `fixtures` for the members of a collection at a path. -/
def memberFixtures (path : Path) : List (String × Node) → List (Path × Item)
  | [] => []
  | (name, node) :: rest => node.fixtures (path.join name) ++ memberFixtures path rest
end

mutual
/-- The node without what depends on initial data: forms and frames are as they were built, no step is visited but the
first one, and no series has siblings. -/
def skeleton : Node → Node
  | .form content => .form content.asBuilt
  | .collection frame progress members =>
    .collection frame.asBuilt (progress.map fun _ => .start members.length) (memberSkeletons members)
  | .series frame template _ => .series frame.asBuilt template []

/-- `skeleton` for named members. -/
def memberSkeletons : List (String × Node) → List (String × Node)
  | [] => []
  | (name, node) :: rest => (name, node.skeleton) :: memberSkeletons rest
end

theorem memberFixtures_eq (path : Path) (members : List (String × Node)) :
    memberFixtures path members = members.flatMap fun entry => entry.2.fixtures (path.join entry.1) := by
  induction members with
  | nil => rfl
  | cons entry rest ih => rw [memberFixtures, ih, List.flatMap_cons]

theorem memberSkeletons_eq (members : List (String × Node)) :
    memberSkeletons members = members.map fun entry => (entry.1, entry.2.skeleton) := by
  induction members with
  | nil => rfl
  | cons entry rest ih => rw [memberSkeletons, ih, List.map_cons]

/-- The skeleton shows all fixtures. -/
theorem fixtures_skeleton (path : Path) (node : Node) :
    node.skeleton.fixtures path = (node.fixtures path).map fun entry => (entry.1, entry.2.asBuilt) := by
  induction node using Node.induction generalizing path with
  | form content =>
      have members : content.asBuilt.members = Member.mapAll Field.asBuilt Group.asBuilt content.members := rfl
      rw [skeleton, fixtures, fixtures, members, Member.itemsAll_mapAll, List.map_cons]
      rfl
  | collection frame progress members ih =>
      rw [skeleton, fixtures, fixtures, memberFixtures_eq, memberFixtures_eq, memberSkeletons_eq, List.flatMap_map,
        List.map_flatMap]
      exact List.flatMap_congr fun entry inside => ih entry inside _
  | series frame template siblings _ _ => rfl

/-! ## What happens at mounting -/

/-- Members that are changed without a change of their skeletons. -/
theorem skeleton_collection_congr {frame other : Frame} {progress later : Option Progress}
    {members : List (String × Node)} {change : String × Node → Node} (sameFrame : other.asBuilt = frame.asBuilt)
    (sameSteps : later.isSome = progress.isSome)
    (same : ∀ entry ∈ members, (change entry).skeleton = entry.2.skeleton) :
    (Node.collection other later (members.map fun entry => (entry.1, change entry))).skeleton =
      (Node.collection frame progress members).skeleton := by
  have skeletons : memberSkeletons (members.map fun entry => (entry.1, change entry)) = memberSkeletons members := by
    rw [memberSkeletons_eq, memberSkeletons_eq, List.map_map]
    exact List.map_congr_left fun entry inside => Prod.ext rfl (same entry inside)
  have steps : later.map (fun _ => Progress.start members.length) =
      progress.map fun _ => Progress.start members.length := by
    cases later <;> cases progress <;> first | rfl | cases sameSteps
  rw [skeleton, skeleton, sameFrame, skeletons, List.length_map, steps]

theorem skeleton_fill (initial : Option Json) (node : Node) : (node.fill initial).skeleton = node.skeleton := by
  induction node using Node.induction generalizing initial with
  | form content => exact congrArg Node.form (content.asBuilt_fill initial)
  | collection frame progress members ih =>
      rw [fill, fillMembers_eq]
      exact skeleton_collection_congr rfl rfl fun entry inside => ih entry inside _
  | series frame template siblings _ _ => rfl

/-- A change of everything that touches nothing that building fixes. -/
theorem skeleton_map {onForm : Path → Form → Form} {onFrame : Path → Frame → Frame}
    (sameForm : ∀ place content, (onForm place content).asBuilt = content.asBuilt)
    (sameFrame : ∀ place frame, (onFrame place frame).asBuilt = frame.asBuilt) (liveOnly : Bool) (path : Path)
    (node : Node) : (node.map liveOnly onForm onFrame path).skeleton = node.skeleton := by
  induction node using Node.induction generalizing path with
  | form content => exact congrArg Node.form (sameForm path content)
  | collection frame progress members ih =>
      rw [map, mapMembers_eq]
      exact skeleton_collection_congr (sameFrame path frame) rfl fun entry inside => ih entry inside _
  | series frame template siblings _ _ => rw [map, skeleton, skeleton, sameFrame]

theorem skeleton_refresh (lookup : Lookup) (path : Path) (node : Node) :
    (node.refresh lookup path).skeleton = node.skeleton :=
  skeleton_map (fun place content => content.asBuilt_refresh lookup place) (fun _ _ => rfl) false path node

theorem skeleton_latch (lookup : Lookup) (path : Path) (node : Node) :
    (node.latch lookup path).skeleton = node.skeleton :=
  skeleton_map (fun place content => content.asBuilt_latch lookup place)
    (fun place frame => Frame.asBuilt_move (.latch frame lookup place)) false path node

theorem skeleton_markPrefilled (node : Node) : node.markPrefilled.skeleton = node.skeleton := by
  induction node using Node.induction with
  | form content => rfl
  | collection frame progress members ih =>
      rw [markPrefilled, markPrefilledAll_eq]
      exact skeleton_collection_congr rfl Option.isSome_map fun entry inside => ih entry inside
  | series frame template siblings _ _ => rfl

end Node

namespace Tree

/-- The forms, fieldsets and fields outside every series with their paths, in the order of rendering. -/
def fixtures (tree : Tree) : List (Path × Item) := tree.root.fixtures tree.here

/-- The tree of a blueprint with initial data that are handed down while the nodes are built. -/
def assemble (blueprint : Blueprint) (initial : Option Json) : Except MountError Tree := do
  let here := match blueprint.namespaceText with
    | some text => Path.parse text
    | none => .root
  let root ← Node.assemble here .top (initial.map InitialData.expandKeys) blueprint.root
  let bare : Tree := {
    namespaceText := blueprint.namespaceText
    root
    firing := none
    pending := none
    response := []
    strayErrors := [] }
  let fresh := bare.refresh
  return { fresh with root := fresh.root.markPrefilled }.latch

/-- It makes no difference whether the data are handed down or filled in afterwards. -/
theorem assemble_eq_mount (blueprint : Blueprint) (initial : Option Json) :
    assemble blueprint initial = mount blueprint initial := by
  obtain ⟨namespaceText, plan, distinct⟩ := blueprint
  cases namespaceText with
  | none => simp only [assemble, mount, Node.assemble_eq, map_bind]
  | some text => simp only [assemble, mount, Node.assemble_eq, map_bind]

/-- Two trees differ in nothing but what initial data can change. -/
structure FixedAlike (first second : Tree) : Prop where
  here : first.here = second.here
  /-- The same forms, fieldsets and fields stand outside of series, at the same paths and in the same order. -/
  fixtures : first.fixtures.map (fun entry => (entry.1, entry.2.asBuilt)) =
    second.fixtures.map fun entry => (entry.1, entry.2.asBuilt)
  /-- They stand in the same collections, among the same series with the same templates. -/
  skeleton : first.root.skeleton = second.root.skeleton

/-- Two attempts to mount a description come out alike. -/
inductive MountedAlike : Except MountError Tree → Except MountError Tree → Prop where
  /-- Both are refused for the same reason, at the same path. -/
  | refused (problem : MountError) : MountedAlike (.error problem) (.error problem)
  | mounted {first second : Tree} (alike : FixedAlike first second) : MountedAlike (.ok first) (.ok second)

theorem FixedAlike.of_skeleton {first second : Tree} (sameText : first.namespaceText = second.namespaceText)
    (skeleton : first.root.skeleton = second.root.skeleton) : FixedAlike first second := by
  have here : first.here = second.here := by rw [Tree.here, Tree.here, sameText]
  refine ⟨here, ?_, skeleton⟩
  rw [Tree.fixtures, Tree.fixtures, ← Node.fixtures_skeleton, ← Node.fixtures_skeleton, skeleton, here]

/-- Initial data are filled in when nothing can be wrong any more. -/
theorem exists_mount_eq (blueprint : Blueprint) : ∃ here, ∀ initial, mount blueprint initial =
    Node.build here .top blueprint.root >>= fun built =>
      .ok (planted blueprint initial built).refresh.prefilled.latch :=
  ⟨_, fun _ => rfl⟩

theorem namespaceText_planted (blueprint : Blueprint) (initial : Option Json) (built : Node) :
    (planted blueprint initial built).refresh.prefilled.latch.namespaceText = blueprint.namespaceText := rfl

theorem skeleton_planted (blueprint : Blueprint) (initial : Option Json) (built : Node) :
    (planted blueprint initial built).refresh.prefilled.latch.root.skeleton = built.skeleton := by
  refine (Node.skeleton_latch _ _ _).trans ?_
  refine (Node.skeleton_markPrefilled _).trans ?_
  refine (Node.skeleton_refresh _ _ _).trans ?_
  exact Node.skeleton_fill _ built

/-- Whatever initial data a description is mounted with, and whether or not they are handed down while the nodes are
built, it is mounted or refused for the same reason, and outside of series the trees have the same forms, fieldsets and
fields in the same order. -/
theorem mount_alike (blueprint : Blueprint) (initial other : Option Json) :
    assemble blueprint initial = mount blueprint initial ∧
      MountedAlike (mount blueprint initial) (mount blueprint other) ∧
        MountedAlike (assemble blueprint initial) (assemble blueprint other) := by
  have alike : MountedAlike (mount blueprint initial) (mount blueprint other) := by
    obtain ⟨here, mounts⟩ := exists_mount_eq blueprint
    rw [mounts initial, mounts other]
    cases Node.build here .top blueprint.root with
    | error problem => exact .refused problem
    | ok built =>
        refine .mounted (.of_skeleton ?_ ?_)
        · rw [namespaceText_planted, namespaceText_planted]
        · exact (skeleton_planted blueprint initial built).trans (skeleton_planted blueprint other built).symm
  refine ⟨assemble_eq_mount blueprint initial, alike, ?_⟩
  rwa [assemble_eq_mount, assemble_eq_mount]

end Tree

end Formwork
