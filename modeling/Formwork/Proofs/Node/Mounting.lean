import Formwork.Proofs.Node.Regular
import Formwork.Proofs.Outcomes

/-!
# What is built is regular

A plan whose names are distinct is built into a regular node (`Node.build_regular`): the names were
checked on the way, the members keep their order, and the siblings of a series are copies of its
template. Putting initial data in place and marking the visited steps keep the plan of the
node (`Node.follows_fill`, `Node.follows_markPrefilled`).
-/

set_option autoImplicit false

namespace Formwork

open Formwork.Text

theorem checkName_eq_ok {parent : Path} {name : String} {outcome : Unit}
    (checked : checkName parent name = .ok outcome) : isMemberName name.toList = true := by
  unfold checkName at checked
  split at checked
  · assumption
  · cases checked

/-! ## Frames -/

/-- A frame that was built has its plan, whose bounds do not contradict each other, and its inducer was read. -/
theorem Node.buildFrame_eq_ok {path : Path} {placement : Placement} {plan : CollectionPlan} {frame : Frame}
    (built : Node.buildFrame path placement plan = .ok frame) :
    frame.plan = plan ∧ (∀ greatest, frame.plan.maxSiblings = some greatest → frame.least ≤ greatest) ∧
      compileActivation path placement plan.activateWhen = .ok frame.inducer := by
  unfold Node.buildFrame at built
  split at built
  · rename_i greatest bound
    dsimp only at built
    split at built
    · cases built
    · rename_i small
      obtain ⟨inducer, read, built⟩ := bind_eq_ok.mp built
      cases built
      refine ⟨rfl, fun other same => ?_, read⟩
      rw [bound] at same
      cases same
      exact Nat.not_lt.mp small
  · rename_i unbound
    obtain ⟨inducer, read, built⟩ := bind_eq_ok.mp built
    cases built
    refine ⟨rfl, fun other same => ?_, read⟩
    rw [unbound] at same
    cases same

/-! ## Forms -/

theorem Field.plan_build {path : Path} {plan : FieldPlan} {entry : Field}
    (built : Field.build path plan = .ok entry) : entry.plan = plan := by
  simp only [Field.build, bind_eq_ok, pure_eq_ok] at built
  obtain ⟨_, -, _, -, _, -, _, -, _, -, rfl⟩ := built
  rfl

theorem Group.plan_build {path : Path} {plan : GroupPlan} {group : Group}
    (built : Group.build path plan = .ok group) : group.plan = plan := by
  simp only [Group.build, bind_eq_ok, pure_eq_ok] at built
  obtain ⟨_, -, _, -, rfl⟩ := built
  rfl

namespace Member

mutual
/-- A member shows the plan it was built from, and all names in it were checked. -/
theorem plan_build {path : Path} {plan : MemberPlan} {member : Member}
    (built : Member.build path plan = .ok member) :
    member.plan = plan ∧ plan.hasMemberNames = true := by
  cases plan with
  | field plan =>
      simp only [Member.build, bind_eq_ok, pure_eq_ok] at built
      obtain ⟨entry, entryBuilt, rfl⟩ := built
      exact ⟨congrArg _ (Field.plan_build entryBuilt), rfl⟩
  | fieldset plan plans =>
      simp only [Member.build, bind_eq_ok, pure_eq_ok] at built
      obtain ⟨_, -, group, groupBuilt, members, membersBuilt, rfl⟩ := built
      obtain ⟨same, named⟩ := plans_buildAll membersBuilt
      exact ⟨by rw [Member.plan, Group.plan_build groupBuilt, same], named⟩

/-- `plan_build` for all members of a list. -/
theorem plans_buildAll {path : Path} {plans : List (String × MemberPlan)}
    {members : List (String × Member)} (built : Member.buildAll path plans = .ok members) :
    Member.plans members = plans ∧ MemberPlan.haveMemberNames plans = true := by
  match plans with
  | [] =>
      cases built
      exact ⟨rfl, rfl⟩
  | (name, plan) :: rest =>
      simp only [Member.buildAll, bind_eq_ok, pure_eq_ok] at built
      obtain ⟨_, checked, member, memberBuilt, others, othersBuilt, rfl⟩ := built
      obtain ⟨same, named⟩ := plan_build memberBuilt
      obtain ⟨sameRest, restNamed⟩ := plans_buildAll othersBuilt
      refine ⟨by rw [Member.plans, same, sameRest], ?_⟩
      simp [MemberPlan.haveMemberNames, checkName_eq_ok checked, named, restNamed]
end

end Member

/-- A form shows the plan it was built from, but for the dialog, and all names in it were checked. -/
theorem Form.plan_build {path : Path} {placement : Placement} {plan : GroupPlan}
    {dialog : Option DialogPlan} {members : List (String × MemberPlan)} {content : Form}
    (built : Form.build path placement plan dialog members = .ok content) :
    content.group.plan = plan ∧ Member.plans content.members = members ∧
      MemberPlan.haveMemberNames members = true := by
  simp only [Form.build, bind_eq_ok, pure_eq_ok] at built
  obtain ⟨_, -, _, -, _, -, group, groupBuilt, built, membersBuilt, rfl⟩ := built
  exact ⟨Group.plan_build groupBuilt, Member.plans_buildAll membersBuilt⟩

/-! ## Nodes -/

namespace Node

/-- The siblings of a series at the start are the given ones and copies of the template. -/
theorem members_of_mem_populate {frame : Frame} {template : List (String × Node)}
    {given : List Sibling} {sibling : Sibling} (inside : sibling ∈ frame.populate template given) :
    sibling ∈ given ∨ sibling.members = template := by
  simp only [Frame.populate, List.mem_append, List.mem_replicate] at inside
  rcases inside with (inGiven | ⟨-, rfl⟩) | ⟨-, rfl⟩
  · exact .inl inGiven
  · exact .inr rfl
  · exact .inr rfl

mutual
/-- A plan with distinct names is built into a regular node. -/
theorem build_regular {path : Path} {placement : Placement} {plan : NodePlan} {node : Node}
    (distinct : plan.hasDistinctNames = true) (built : Node.build path placement plan = .ok node) :
    node.Regular := by
  match plan with
  | .form plan dialog members =>
      simp only [Node.build, bind_eq_ok, pure_eq_ok] at built
      obtain ⟨content, contentBuilt, rfl⟩ := built
      obtain ⟨-, same, named⟩ := Form.plan_build contentBuilt
      simp only [NodePlan.hasDistinctNames, Bool.and_eq_true, Assoc.distinct_eq_true_iff] at distinct
      refine Regular.form_iff.mpr ⟨?_, by rw [same]; exact distinct.2, by rw [same]; exact named⟩
      rw [← Member.keys_plans, same]
      exact distinct.1
  | .collection plan members =>
      simp only [NodePlan.hasDistinctNames, Bool.and_eq_true] at distinct
      simp only [Node.build, bind_eq_ok] at built
      obtain ⟨frame, -, built⟩ := built
      split at built
      · simp only [bind_eq_ok, pure_eq_ok] at built
        obtain ⟨template, templateBuilt, rfl⟩ := built
        refine .ofTemplate (buildMembers_regular distinct templateBuilt) ?_
        intro sibling inside
        exact (members_of_mem_populate inside).resolve_left (by simp)
      · simp only [bind_eq_ok, pure_eq_ok] at built
        obtain ⟨entries, entriesBuilt, rfl⟩ := built
        exact Regular.collection_iff.mpr (buildMembers_regular distinct entriesBuilt)
  | .stepper plan members =>
      simp only [NodePlan.hasDistinctNames, Bool.and_eq_true] at distinct
      simp only [Node.build] at built
      split at built
      · cases built
      · split at built
        · cases built
        · simp only [bind_eq_ok, pure_eq_ok] at built
          obtain ⟨frame, -, entries, entriesBuilt, rfl⟩ := built
          exact Regular.collection_iff.mpr (buildMembers_regular distinct entriesBuilt)

/-- `build_regular` for the members of a collection. -/
theorem buildMembers_regular {path : Path} {placement : Placement}
    {plans : List (String × NodePlan)} {members : List (String × Node)}
    (distinct : Assoc.distinct (Assoc.keys plans) = true ∧ NodePlan.haveDistinctNames plans = true)
    (built : Node.buildMembers path placement plans = .ok members) : RegularMembers members := by
  obtain ⟨nodup, distinct⟩ := distinct
  obtain ⟨same, regular⟩ := buildMembers_members distinct built
  rw [Assoc.distinct_eq_true_iff, ← same] at nodup
  exact ⟨nodup, fun entry inside => (regular entry inside).1, fun entry inside =>
    (regular entry inside).2⟩

/-- The members of a collection keep their order, and each of them is regular under a checked name. -/
theorem buildMembers_members {path : Path} {placement : Placement}
    {plans : List (String × NodePlan)} {members : List (String × Node)}
    (distinct : NodePlan.haveDistinctNames plans = true)
    (built : Node.buildMembers path placement plans = .ok members) :
    Assoc.keys members = Assoc.keys plans ∧
      ∀ entry ∈ members, isMemberName entry.1.toList = true ∧ entry.2.Regular := by
  match plans with
  | [] =>
      cases built
      exact ⟨rfl, by simp⟩
  | (name, plan) :: rest =>
      simp only [NodePlan.haveDistinctNames, Bool.and_eq_true] at distinct
      simp only [Node.buildMembers, bind_eq_ok, pure_eq_ok] at built
      obtain ⟨_, checked, node, nodeBuilt, others, othersBuilt, rfl⟩ := built
      obtain ⟨same, regular⟩ := buildMembers_members distinct.2 othersBuilt
      refine ⟨congrArg (name :: ·) same, fun entry inside => ?_⟩
      rcases List.mem_cons.mp inside with rfl | later
      · exact ⟨checkName_eq_ok checked, build_regular distinct.1 nodeBuilt⟩
      · exact regular entry later
end

/-! ## Initial data and visited steps -/

theorem plan_fill (initial : Option Json) (node : Node) : (node.fill initial).plan = node.plan := by
  induction node using Node.induction generalizing initial with
  | form content => simp only [fill, plan, Form.plan_fill]
  | collection frame progress members ih =>
      refine plan_collection_congr rfl rfl ?_
      rw [fillMembers_eq, plans_eq, plans_eq, List.map_map]
      exact List.map_congr_left fun entry inside => by simp [ih entry inside]
  | series frame template siblings _ _ => rfl

theorem plans_fillMembers (initial : Option Json) (members : List (String × Node)) :
    plans (fillMembers initial members) = plans members := by
  simp [plans_eq, fillMembers_eq, Function.comp_def, plan_fill]

theorem uniform_fill (initial : Option Json) {node : Node} (uniform : node.Uniform) :
    (node.fill initial).Uniform := by
  induction uniform generalizing initial with
  | form content => exact .form _
  | collection inner ih =>
      refine .collection ?_
      intro entry inside
      rw [fillMembers_eq] at inside
      obtain ⟨old, there, rfl⟩ := List.mem_map.mp inside
      exact ih old there _
  | @series frame template siblings inTemplate _ _ ih _ =>
      -- A sibling is a filled copy of the template, or the template itself.
      refine .series inTemplate (fun sibling inside => ?_) fun sibling inside => ?_
      all_goals rcases members_of_mem_populate inside with given | copy
      · obtain ⟨entry, -, rfl⟩ := List.mem_map.mp given
        exact plans_fillMembers _ _
      · rw [copy]
      · obtain ⟨entry, -, rfl⟩ := List.mem_map.mp given
        intro member memberInside
        rw [Sibling.members_mk, fillMembers_eq] at memberInside
        obtain ⟨old, there, rfl⟩ := List.mem_map.mp memberInside
        exact ih old there _
      · rwa [copy]

theorem follows_fill (initial : Option Json) (node : Node) : (node.fill initial).Follows node :=
  ⟨plan_fill initial node, uniform_fill initial⟩

theorem follows_markPrefilled (node : Node) : node.markPrefilled.Follows node := by
  induction node using Node.induction with
  | form content => exact .refl _
  | collection frame progress members ih =>
      constructor
      · refine plan_collection_congr rfl (by simp) ?_
        rw [markPrefilledAll_eq, plans_eq, plans_eq, List.map_map]
        exact List.map_congr_left fun entry inside => by simp [(ih entry inside).plan]
      · rintro ⟨⟩
        rename_i inner
        refine .collection ?_
        intro entry inside
        rw [markPrefilledAll_eq] at inside
        obtain ⟨old, there, rfl⟩ := List.mem_map.mp inside
        exact (ih old there).uniform (inner old there)
  | series frame template siblings _ _ => exact .refl _

end Node

end Formwork
