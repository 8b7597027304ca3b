import Formwork.Proofs.Node.Layout

/-!
# Regular nodes

A description promises that no two members side by side have the same name, and that every name
is an identifier that is not a row of digits. A node is *regular* if its plan keeps both promises
and the siblings of every series follow their template. Every node beneath a regular node is
regular (`Regular.branch`), its branches are told apart by their segments
(`Regular.nodup_fronts`), and the same holds of the members of its forms (`Member.Regular`).
-/

set_option autoImplicit false

namespace Formwork

open Formwork.Text

/-! ## Names in plans -/

mutual
/-- Whether everything beneath a member has the name of a member. -/
def MemberPlan.hasMemberNames : MemberPlan → Bool
  | .field _ => true
  | .fieldset _ members => MemberPlan.haveMemberNames members

/-- Whether all members of a list, and everything beneath them, have the names of members. -/
def MemberPlan.haveMemberNames : List (String × MemberPlan) → Bool
  | [] => true
  | (name, member) :: rest =>
    isMemberName name.toList && member.hasMemberNames && MemberPlan.haveMemberNames rest
end

mutual
/-- Whether everything beneath a node has the name of a member. -/
def NodePlan.hasMemberNames : NodePlan → Bool
  | .form _ _ members => MemberPlan.haveMemberNames members
  | .collection _ members => NodePlan.haveMemberNames members
  | .stepper _ members => NodePlan.haveMemberNames members

/-- Whether all nodes of a list, and everything beneath them, have the names of members. -/
def NodePlan.haveMemberNames : List (String × NodePlan) → Bool
  | [] => true
  | (name, node) :: rest =>
    isMemberName name.toList && node.hasMemberNames && NodePlan.haveMemberNames rest
end

theorem MemberPlan.haveMemberNames_iff {members : List (String × MemberPlan)} :
    haveMemberNames members = true ↔
      ∀ entry ∈ members, isMemberName entry.1.toList = true ∧ entry.2.hasMemberNames = true := by
  induction members with
  | nil => simp [haveMemberNames]
  | cons entry rest ih => simp [haveMemberNames, ih, and_assoc]

theorem MemberPlan.haveDistinctNames_iff {members : List (String × MemberPlan)} :
    haveDistinctNames members = true ↔ ∀ entry ∈ members, entry.2.hasDistinctNames = true := by
  induction members with
  | nil => simp [haveDistinctNames]
  | cons entry rest ih => simp [haveDistinctNames, ih]

theorem NodePlan.haveMemberNames_iff {members : List (String × NodePlan)} :
    haveMemberNames members = true ↔
      ∀ entry ∈ members, isMemberName entry.1.toList = true ∧ entry.2.hasMemberNames = true := by
  induction members with
  | nil => simp [haveMemberNames]
  | cons entry rest ih => simp [haveMemberNames, ih, and_assoc]

theorem NodePlan.haveDistinctNames_iff {members : List (String × NodePlan)} :
    haveDistinctNames members = true ↔ ∀ entry ∈ members, entry.2.hasDistinctNames = true := by
  induction members with
  | nil => simp [haveDistinctNames]
  | cons entry rest ih => simp [haveDistinctNames, ih]

/-! ## Members -/

namespace Member

/-- The names in a list of members, and everywhere beneath, are distinct names of members. -/
structure Regular (members : List (String × Member)) : Prop where
  nodup : (Assoc.keys members).Nodup
  distinct : MemberPlan.haveDistinctNames (plans members) = true
  named : MemberPlan.haveMemberNames (plans members) = true

@[simp]
theorem keys_plans (members : List (String × Member)) :
    Assoc.keys (plans members) = Assoc.keys members := by
  simp [plans_eq, Assoc.keys]

namespace Regular

variable {members : List (String × Member)} (regular : Regular members)
include regular

theorem isMemberName {entry : String × Member} (inside : entry ∈ members) :
    Text.isMemberName entry.1.toList = true := by
  have names := MemberPlan.haveMemberNames_iff.mp regular.named
  rw [plans_eq] at names
  have there : (entry.1, entry.2.plan) ∈ members.map fun entry => (entry.1, entry.2.plan) :=
    List.mem_map.mpr ⟨entry, inside, rfl⟩
  exact (names _ there).1

/-- The members of a fieldset are regular. -/
theorem fieldset {name : String} {group : Group} {inner : List (String × Member)}
    (inside : (name, .fieldset group inner) ∈ members) : Regular inner := by
  have names := MemberPlan.haveMemberNames_iff.mp regular.named
  have distinct := MemberPlan.haveDistinctNames_iff.mp regular.distinct
  rw [plans_eq] at names distinct
  have namesInside := (names _ (List.mem_map.mpr ⟨_, inside, rfl⟩)).2
  have distinctInside := distinct _ (List.mem_map.mpr ⟨_, inside, rfl⟩)
  simp only [plan, MemberPlan.hasDistinctNames, Bool.and_eq_true, Assoc.distinct_eq_true_iff,
    keys_plans] at distinctInside
  exact ⟨distinctInside.1, distinctInside.2, by simpa [plan, MemberPlan.hasMemberNames] using namesInside⟩

end Regular

end Member

/-! ## Nodes -/

namespace Node

/-- The plan of the node has distinct names of members everywhere, and all siblings follow it. -/
structure Regular (node : Node) : Prop where
  distinct : node.plan.hasDistinctNames = true
  named : node.plan.hasMemberNames = true
  uniform : node.Uniform

/-- What a regular node says of the members of a collection, and of each sibling. -/
structure RegularMembers (members : List (String × Node)) : Prop where
  nodup : (Assoc.keys members).Nodup
  named : ∀ entry ∈ members, isMemberName entry.1.toList = true
  inner : ∀ entry ∈ members, entry.2.Regular

@[simp]
theorem keys_plans (members : List (String × Node)) :
    Assoc.keys (plans members) = Assoc.keys members := by
  simp [plans_eq, Assoc.keys]

theorem regularMembers_of_plans {members : List (String × Node)}
    (nodup : Assoc.distinct (Assoc.keys (plans members)) = true)
    (distinct : NodePlan.haveDistinctNames (plans members) = true)
    (named : NodePlan.haveMemberNames (plans members) = true)
    (uniform : ∀ entry ∈ members, entry.2.Uniform) : RegularMembers members := by
  rw [NodePlan.haveDistinctNames_iff, plans_eq] at distinct
  rw [NodePlan.haveMemberNames_iff, plans_eq] at named
  rw [keys_plans, Assoc.distinct_eq_true_iff] at nodup
  have there {entry : String × Node} (inside : entry ∈ members) :
      (entry.1, entry.2.plan) ∈ members.map fun entry => (entry.1, entry.2.plan) :=
    List.mem_map.mpr ⟨entry, inside, rfl⟩
  exact ⟨nodup, fun entry inside => (named _ (there inside)).1, fun entry inside =>
    ⟨distinct _ (there inside), (named _ (there inside)).2, uniform entry inside⟩⟩

/-- The plans of regular members keep the promises of a description. -/
theorem RegularMembers.plans {members : List (String × Node)} (regular : RegularMembers members) :
    Assoc.distinct (Assoc.keys members) = true ∧
      NodePlan.haveDistinctNames (Node.plans members) = true ∧
        NodePlan.haveMemberNames (Node.plans members) = true := by
  rw [Assoc.distinct_eq_true_iff, NodePlan.haveDistinctNames_iff,
    NodePlan.haveMemberNames_iff, plans_eq]
  refine ⟨regular.nodup, fun entry inside => ?_, fun entry inside => ?_⟩
  all_goals obtain ⟨member, there, rfl⟩ := List.mem_map.mp inside
  · exact (regular.inner member there).distinct
  · exact ⟨regular.named member there, (regular.inner member there).named⟩

/-- A name leads to one node only. -/
theorem RegularMembers.unique {members : List (String × Node)} (regular : RegularMembers members)
    {name : String} {first second : Node} (inFirst : (name, first) ∈ members)
    (inSecond : (name, second) ∈ members) : first = second :=
  congrArg Prod.snd (List.inj_on_of_nodup_map regular.nodup inFirst inSecond rfl)

namespace Regular

/-- A form is regular if its members are. -/
theorem form_iff {content : Form} : (Node.form content).Regular ↔ Member.Regular content.members := by
  constructor
  · rintro ⟨distinct, named, -⟩
    simp only [plan, Form.plan, NodePlan.hasDistinctNames, NodePlan.hasMemberNames, Bool.and_eq_true,
      Assoc.distinct_eq_true_iff, Member.keys_plans] at distinct named
    exact ⟨distinct.1, distinct.2, named⟩
  · intro regular
    refine ⟨?_, regular.named, .form content⟩
    simp [plan, Form.plan, NodePlan.hasDistinctNames, Assoc.distinct_eq_true_iff, regular.nodup, regular.distinct]

variable {frame : Frame}

/-- A collection or stepper is regular if its members are. -/
theorem collection_iff {progress : Option Progress} {members : List (String × Node)} :
    (Node.collection frame progress members).Regular ↔ RegularMembers members := by
  constructor
  · rintro ⟨distinct, named, uniform⟩
    cases uniform with
    | collection inner =>
        cases progress <;>
          (simp only [plan, NodePlan.hasDistinctNames, NodePlan.hasMemberNames, Bool.and_eq_true] at distinct named
           exact regularMembers_of_plans distinct.1 distinct.2 named inner)
  · intro regular
    obtain ⟨nodup, distinct, named⟩ := regular.plans
    have uniform : (Node.collection frame progress members).Uniform :=
      .collection fun entry inside => (regular.inner entry inside).uniform
    cases progress <;> exact ⟨by simp [plan, NodePlan.hasDistinctNames, nodup, distinct], named, uniform⟩

/-- A series is regular if its template is and the siblings follow it. -/
theorem series_iff {template : List (String × Node)} {siblings : List Sibling} :
    (Node.series frame template siblings).Regular ↔ RegularMembers template ∧
      ∀ sibling ∈ siblings, Node.plans sibling.members = Node.plans template ∧ RegularMembers sibling.members := by
  constructor
  · rintro ⟨distinct, named, uniform⟩
    cases uniform with
    | series inTemplate alike inner =>
        simp only [plan, NodePlan.hasDistinctNames, NodePlan.hasMemberNames, Bool.and_eq_true] at distinct named
        refine ⟨regularMembers_of_plans distinct.1 distinct.2 named inTemplate, fun sibling inside => ?_⟩
        rw [← alike sibling inside] at distinct named
        exact ⟨alike sibling inside, regularMembers_of_plans distinct.1 distinct.2 named (inner sibling inside)⟩
  · rintro ⟨regular, each⟩
    obtain ⟨nodup, distinct, named⟩ := regular.plans
    refine ⟨by simp [plan, NodePlan.hasDistinctNames, nodup, distinct], named, .series ?_ ?_ ?_⟩
    · exact fun entry inside => (regular.inner entry inside).uniform
    · exact fun sibling inside => (each sibling inside).1
    · exact fun sibling inside entry there => ((each sibling inside).2.inner entry there).uniform

/-- A series whose siblings are copies of its template is regular if the template is. -/
theorem ofTemplate {template : List (String × Node)} {siblings : List Sibling}
    (regular : RegularMembers template) (copies : ∀ sibling ∈ siblings, sibling.members = template) :
    (Node.series frame template siblings).Regular := by
  rw [series_iff]
  refine ⟨regular, fun sibling inside => ?_⟩
  rw [copies sibling inside]
  exact ⟨rfl, regular⟩

theorem form {content : Form} (regular : (Node.form content).Regular) : Member.Regular content.members := by
  rwa [form_iff] at regular

theorem collection {progress : Option Progress} {members : List (String × Node)}
    (regular : (Node.collection frame progress members).Regular) : RegularMembers members := by
  rwa [collection_iff] at regular

theorem series {template : List (String × Node)} {siblings : List Sibling}
    (regular : (Node.series frame template siblings).Regular) {sibling : Sibling} (inside : sibling ∈ siblings) :
    RegularMembers sibling.members := by
  rw [series_iff] at regular
  exact (regular.2 sibling inside).2

theorem template {template : List (String × Node)} {siblings : List Sibling}
    (regular : (Node.series frame template siblings).Regular) : RegularMembers template := by
  rw [series_iff] at regular
  exact regular.1

variable {node : Node} (regular : node.Regular)
include regular

/-- Everything beneath a regular node is regular. -/
theorem branch {branch : List String × Node} (inside : branch ∈ node.branches) :
    branch.2.Regular := by
  cases node with
  | form content => simp [branches] at inside
  | collection frame progress members =>
      obtain ⟨name, -, there⟩ := mem_branches_collection.mp inside
      exact regular.collection.inner _ there
  | series frame template siblings =>
      obtain ⟨index, sibling, name, here, -, there⟩ := mem_branches_series.mp inside
      exact (regular.series (List.mem_of_getElem? here)).inner _ there

/-- The branches of a regular node are told apart by their segments. -/
theorem nodup_fronts : (node.branches.map Prod.fst).Nodup := by
  cases node with
  | form content => simp [branches]
  | collection frame progress members =>
      have fronts : (Node.collection frame progress members).branches.map Prod.fst =
          (Assoc.keys members).map fun name => [name] := by
        simp [branches, Assoc.keys]
      rw [fronts]
      exact regular.collection.nodup.map fun _ _ same => by simpa using same
  | series frame template siblings =>
      simp only [branches, List.map_flatMap, List.map_map]
      refine List.nodup_flatMap.mpr ⟨?_, ?_⟩
      · intro entry inside
        have nodup := (regular.series (List.fst_mem_of_mem_zipIdx inside)).nodup
        have fronts : (entry.1.members.map (Prod.fst ∘ fun member : String × Node =>
            ([indexText entry.2, member.1], member.2))) =
              (Assoc.keys entry.1.members).map fun name => [indexText entry.2, name] := by
          simp [Assoc.keys]
        rw [fronts]
        exact nodup.map fun _ _ same => by simpa using same
      · have numbers : siblings.zipIdx.Pairwise fun first second => first.2 ≠ second.2 := by
          have nodup := List.nodup_range' (s := 0) (n := siblings.length)
          rw [← List.zipIdx_map_snd] at nodup
          exact List.pairwise_map.mp nodup
        refine numbers.imp fun {first second} apart front inFirst inSecond => ?_
        simp only [List.mem_map, Function.comp_apply] at inFirst inSecond
        obtain ⟨_, -, rfl⟩ := inFirst
        obtain ⟨_, -, same⟩ := inSecond
        simp only [List.cons.injEq] at same
        exact apart (indexText_injective same.1).symm

end Regular

/-! ## What keeps a node regular -/

/-- A node still shows the plan of an earlier one, and its siblings follow their templates if those
of the earlier one do. -/
structure Follows (later earlier : Node) : Prop where
  plan : later.plan = earlier.plan
  uniform : earlier.Uniform → later.Uniform

theorem Follows.refl (node : Node) : node.Follows node := ⟨rfl, id⟩

theorem Follows.trans {last later earlier : Node} (second : last.Follows later)
    (first : later.Follows earlier) : last.Follows earlier :=
  ⟨second.plan.trans first.plan, second.uniform ∘ first.uniform⟩

theorem Regular.follows {later earlier : Node} (regular : earlier.Regular)
    (follows : later.Follows earlier) : later.Regular :=
  ⟨by rw [follows.plan]; exact regular.distinct, by rw [follows.plan]; exact regular.named,
    follows.uniform regular.uniform⟩

/-- A node follows an earlier one, and its elements remember the same paths. -/
structure Retains (later earlier : Node) : Prop extends Follows later earlier where
  layout : ∀ path, later.layout path = earlier.layout path

theorem Retains.refl (node : Node) : node.Retains node := ⟨.refl node, fun _ => rfl⟩

theorem Retains.trans {last later earlier : Node} (second : last.Retains later)
    (first : later.Retains earlier) : last.Retains earlier :=
  ⟨second.toFollows.trans first.toFollows, fun path => (second.layout path).trans (first.layout path)⟩

theorem retains_map {onForm : Path → Form → Form} {onFrame : Path → Frame → Frame}
    (keepsForm : ∀ path content, (onForm path content).plan = content.plan)
    (keepsFrame : ∀ path frame, (onFrame path frame).plan = frame.plan) (liveOnly : Bool)
    (path : Path) (node : Node) : (node.map liveOnly onForm onFrame path).Retains node where
  plan := plan_map keepsForm keepsFrame liveOnly path node
  uniform := uniform_map keepsForm keepsFrame liveOnly path
  layout place := layout_map keepsForm liveOnly path place node

theorem retains_validate (path : Path) (node : Node) : (node.validate path).Retains node := by
  refine retains_map (fun place content => ?_) (fun _ _ => rfl) true path node
  split
  · rfl
  · exact content.plan_validate place

theorem follows_along {change : List String → Node → Node}
    (keeps : ∀ segments node, (change segments node).Follows node) (segments : List String)
    (node : Node) : (node.along change segments).Follows node :=
  ⟨plan_along (fun segments node => (keeps segments node).plan) segments node,
    uniform_along (fun segments node => (keeps segments node).plan)
      (fun segments node => (keeps segments node).uniform) segments⟩

theorem retains_along {change : List String → Node → Node}
    (keeps : ∀ segments node, (change segments node).Retains node) (segments : List String)
    (node : Node) : (node.along change segments).Retains node :=
  ⟨follows_along (fun segments node => (keeps segments node).toFollows) segments node,
    fun path => layout_along (fun segments node => (keeps segments node).layout) segments path node⟩

theorem retains_modifyForm {change : List String → Form → Form}
    (keeps : ∀ names content, (change names content).plan = content.plan) (segments : List String)
    (node : Node) : (node.modifyForm change segments).Retains node := by
  refine retains_along (fun names inner => ?_) segments node
  cases inner with
  | form content =>
      exact ⟨⟨keeps names content, fun _ => .form _⟩, fun path =>
        congrArg (Layout.form path) (Form.layoutAll_congr (keeps names content) path)⟩
  | collection frame progress members => exact .refl _
  | series frame template siblings => exact .refl _

section Replacing

variable {segments : List String} {node inner moved : Node}

open Classical in
/-- Putting a node in the place of another is a change that leaves every other node as it is. -/
theorem modify_eq_along (stands : node.get? segments = some inner) :
    node.modify (fun _ => moved) segments =
      node.along (fun rest other => if rest = [] ∧ other = inner then moved else other) segments := by
  have only : node.modify (fun _ => moved) segments =
      node.modify (fun other => if other = inner then moved else other) segments := by
    refine modify_congr ?_
    intro other found
    rw [stands] at found
    injection found with same
    rw [if_pos same.symm]
  rw [only, modify]
  congr 1
  funext rest other
  cases rest with
  | nil => simp
  | cons _ _ => simp

/-- Putting a node that follows another in its place. -/
theorem follows_modify (stands : node.get? segments = some inner) (follows : moved.Follows inner) :
    (node.modify (fun _ => moved) segments).Follows node := by
  rw [modify_eq_along stands]
  refine follows_along (fun rest other => ?_) segments node
  split
  · rename_i here
    rw [here.2]
    exact follows
  · exact .refl _

/-- Putting a node that retains another in its place. -/
theorem retains_modify (stands : node.get? segments = some inner) (retains : moved.Retains inner) :
    (node.modify (fun _ => moved) segments).Retains node := by
  rw [modify_eq_along stands]
  refine retains_along (fun rest other => ?_) segments node
  split
  · rename_i here
    rw [here.2]
    exact retains
  · exact .refl _

end Replacing

/-- Whether siblings were touched is not part of what a series remembers. -/
theorem layoutSiblings_touched (path : Path) (siblings : List Sibling) (position : Nat) :
    layoutSiblings path 0 (siblings.modify position Sibling.touched) = layoutSiblings path 0 siblings := by
  refine List.ext_getElem? ?_
  intro index
  rw [getElem?_layoutSiblings, getElem?_layoutSiblings, List.getElem?_modify]
  cases siblings[index]? with
  | none => rfl
  | some sibling =>
      obtain ⟨pristine, members⟩ := sibling
      simp only [Option.map_eq_map, Option.map_some]
      split
      · rfl
      · rfl

theorem retains_touch (segments : List String) (node : Node) : (node.touch segments).Retains node := by
  refine retains_along (fun rest inner => ?_) segments node
  split
  · split
    · rename_i frame template siblings _ position _
      refine ⟨⟨rfl, ?_⟩, ?_⟩
      · rintro ⟨⟩
        rename_i inTemplate inner alike
        have cases {sibling : Sibling} (inside : sibling ∈ siblings.modify position Sibling.touched) :
            ∃ old ∈ siblings, sibling.members = old.members := by
          rcases mem_of_mem_modify inside with old | ⟨old, there, rfl⟩
          · exact ⟨sibling, old, rfl⟩
          · exact ⟨old, there, by cases old; rfl⟩
        refine .series inTemplate (fun sibling inside => ?_) fun sibling inside => ?_
        all_goals obtain ⟨old, there, same⟩ := cases inside
        · exact same ▸ alike old there
        · exact same ▸ inner old there
      · intro path
        rw [Node.layout, Node.layout, layoutSiblings_touched]
    · exact .refl _
  · exact .refl _

end Node

end Formwork
