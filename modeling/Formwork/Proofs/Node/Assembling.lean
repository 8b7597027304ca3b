import Formwork.Proofs.Node.Rebuilding

/-!
# Building with data at hand

A node can also be assembled from its plan and its initial data in one go (`Node.assemble`). The data are handed down
with the plan, and each collection builds its members first as a template, without data. A collection that can be
repeated then builds the members of every sibling for which there is data anew, at the index of this sibling; one that
cannot be repeated builds its members a second time, now with data.

So the same members are built many times, and each time something may turn out to be wrong with them. But data are
looked at only where nothing can go wrong any more, and paths only to say where something is wrong. If something
is wrong, the first template already shows it, and what is assembled is what is built without data and filled
afterwards (`Node.assemble_eq`).
-/

set_option autoImplicit false

namespace Formwork

open Formwork.Text

/-! ## Fields and forms -/

/-- The field of a plan at a path with its initial data, which are looked at last. -/
def Field.assemble (path : Path) (initial : Option Json) (plan : FieldPlan) : Except MountError Field := do
  let entry ← Field.build path plan
  return entry.fill initial

namespace Member

mutual
/-- The member of a plan at a path with its initial data. -/
def assemble (path : Path) (initial : Option Json) : MemberPlan → Except MountError Member
  | .field plan => do
    let entry ← Field.assemble path initial plan
    return .field entry
  | .fieldset plan members => do
    checkFieldset path plan.conditions
    let group ← Group.build path plan
    let members ← assembleAll path initial members
    return .fieldset group members

/-- The members of a group at a path with the initial data of the group. -/
def assembleAll (path : Path) (initial : Option Json) :
    List (String × MemberPlan) → Except MountError (List (String × Member))
  | [] => .ok []
  | (name, plan) :: rest => do
    checkName path name
    let member ← assemble (path.join name) (initial.bind (Json.field? name)) plan
    let others ← assembleAll path initial rest
    return (name, member) :: others
end

mutual
theorem assemble_eq (path : Path) (initial : Option Json) (plan : MemberPlan) :
    assemble path initial plan = (build path plan).map (fill initial) := by
  match plan with
  | .field plan =>
      rw [assemble, build, Field.assemble, bind_assoc, bind_map]
      rfl
  | .fieldset plan members =>
      rw [assemble, build, assembleAll_eq path initial members]
      simp only [map_bind, bind_map]
      rfl

/-- `assemble_eq` for the members of a group. -/
theorem assembleAll_eq (path : Path) (initial : Option Json) (plans : List (String × MemberPlan)) :
    assembleAll path initial plans = (buildAll path plans).map (fillAll initial) := by
  match plans with
  | [] => rfl
  | (name, plan) :: rest =>
      rw [assembleAll, buildAll, assemble_eq (path.join name) _ plan, assembleAll_eq path initial rest]
      simp only [map_bind, bind_map]
      rfl
end

end Member

namespace Form

/-- The form of a plan at a path with its initial data. -/
def assemble (path : Path) (placement : Placement) (initial : Option Json) (plan : GroupPlan)
    (dialog : Option DialogPlan) (members : List (String × MemberPlan)) : Except MountError Form := do
  let conditions := plan.conditions
  let opening ← Inducer.compileOptional path .opens conditions.openWhen
  let closing ← Inducer.compileOptional path .closes conditions.closeWhen
  let activating ← compileActivation path placement conditions.activateWhen
  let group ← Group.build path plan
  let members ← Member.assembleAll path initial members
  let isDialog := dialog.isSome || conditions.openWhen.isSome || conditions.closeWhen.isSome
  return {
    group, members
    inducers := opening.toList ++ closing.toList ++ activating.toList
    dialog := if isDialog then some ⟨dialog.getD .plain, false⟩ else none }

theorem assemble_eq (path : Path) (placement : Placement) (initial : Option Json) (plan : GroupPlan)
    (dialog : Option DialogPlan) (members : List (String × MemberPlan)) :
    assemble path placement initial plan dialog members =
      (build path placement plan dialog members).map (fill initial) := by
  rw [assemble, build, Member.assembleAll_eq]
  simp only [map_bind, bind_map]
  rfl

end Form

/-! ## What is filled without data -/

theorem Field.fill_none {path : Path} {plan : FieldPlan} {entry : Field} (built : Field.build path plan = .ok entry) :
    entry.fill none = entry := by
  simp only [Field.build, bind_eq_ok, pure_eq_ok] at built
  obtain ⟨_, -, _, -, _, -, _, -, _, -, rfl⟩ := built
  rfl

namespace Member

mutual
/-- A member that was built holds the values of its plan already. -/
theorem fill_none {path : Path} {plan : MemberPlan} {member : Member} (built : build path plan = .ok member) :
    member.fill none = member := by
  match plan with
  | .field plan =>
      simp only [build, bind_eq_ok, pure_eq_ok] at built
      obtain ⟨entry, entryBuilt, rfl⟩ := built
      rw [fill, Field.fill_none entryBuilt]
  | .fieldset plan members =>
      simp only [build, bind_eq_ok, pure_eq_ok] at built
      obtain ⟨_, -, group, -, entries, entriesBuilt, rfl⟩ := built
      rw [fill, fillAll_none entriesBuilt]

/-- `fill_none` for the members of a group. -/
theorem fillAll_none {path : Path} {plans : List (String × MemberPlan)} {members : List (String × Member)}
    (built : buildAll path plans = .ok members) : fillAll none members = members := by
  match plans with
  | [] =>
      cases built
      rfl
  | (name, plan) :: rest =>
      simp only [buildAll, bind_eq_ok, pure_eq_ok] at built
      obtain ⟨_, -, member, memberBuilt, others, othersBuilt, rfl⟩ := built
      rw [fillAll, Option.bind_none, fill_none memberBuilt, fillAll_none othersBuilt]
end

end Member

theorem Form.fill_none {path : Path} {placement : Placement} {plan : GroupPlan} {dialog : Option DialogPlan}
    {members : List (String × MemberPlan)} {content : Form}
    (built : Form.build path placement plan dialog members = .ok content) : content.fill none = content := by
  simp only [Form.build, bind_eq_ok, pure_eq_ok] at built
  obtain ⟨_, -, _, -, _, -, _, -, entries, entriesBuilt, rfl⟩ := built
  rw [Form.fill, Member.fillAll_none entriesBuilt]

namespace Node

mutual
/-- A node that was built holds the values of its plan already, and no series has siblings for which data was given. -/
theorem fill_none {path : Path} {placement : Placement} {plan : NodePlan} {node : Node}
    (built : build path placement plan = .ok node) : node.fill none = node := by
  match plan with
  | .form plan dialog members =>
      simp only [build, bind_eq_ok, pure_eq_ok] at built
      obtain ⟨content, contentBuilt, rfl⟩ := built
      rw [fill, Form.fill_none contentBuilt]
  | .collection plan members =>
      simp only [build, bind_eq_ok] at built
      obtain ⟨frame, -, built⟩ := built
      split at built
      · simp only [bind_eq_ok, pure_eq_ok] at built
        obtain ⟨template, -, rfl⟩ := built
        have nothing : frame.admitted (InitialData.siblingEntries none) = [] := by
          unfold Frame.admitted
          cases frame.plan.maxSiblings <;> simp [InitialData.siblingEntries]
        rw [fill, nothing]
        rfl
      · simp only [bind_eq_ok, pure_eq_ok] at built
        obtain ⟨entries, entriesBuilt, rfl⟩ := built
        rw [fill, fillMembers_none entriesBuilt]
  | .stepper plan members =>
      simp only [build] at built
      split at built
      · cases built
      · split at built
        · cases built
        · simp only [bind_eq_ok, pure_eq_ok] at built
          obtain ⟨frame, -, entries, entriesBuilt, rfl⟩ := built
          rw [fill, fillMembers_none entriesBuilt]

/-- `fill_none` for the members of a collection. -/
theorem fillMembers_none {path : Path} {placement : Placement} {plans : List (String × NodePlan)}
    {members : List (String × Node)} (built : buildMembers path placement plans = .ok members) :
    fillMembers none members = members := by
  match plans with
  | [] =>
      cases built
      rfl
  | (name, plan) :: rest =>
      simp only [buildMembers, bind_eq_ok, pure_eq_ok] at built
      obtain ⟨_, -, node, nodeBuilt, others, othersBuilt, rfl⟩ := built
      rw [fillMembers, Option.bind_none, fill_none nodeBuilt, fillMembers_none othersBuilt]
end

/-! ## Nodes -/

mutual
/-- The node of a plan at a path with its initial data. -/
def assemble (path : Path) (placement : Placement) (initial : Option Json) : NodePlan → Except MountError Node
  | .form plan dialog members => do
    let content ← Form.assemble path placement initial plan dialog members
    return .form content
  | .collection plan members => do
    let frame ← buildFrame path placement plan
    if plan.isRepeatable then
      let template ← assembleMembers (path.join templateSegment) ⟨false, true⟩ none members
      let entries := frame.admitted (InitialData.siblingEntries initial)
      let given ← entries.zipIdx.mapM fun entry =>
        assembleMembers (path.join (indexText entry.2)) ⟨false, true⟩ (some entry.1) members
      return .series frame template (frame.populate template (given.map (.mk false)))
    else
      let _ ← assembleMembers path ⟨false, placement.withinSeries⟩ none members
      let members ← assembleMembers path ⟨false, placement.withinSeries⟩ initial members
      return .collection frame none members
  | .stepper plan members => do
    if plan.isRepeatable || placement.withinSeries then throw (.repeatableStepper path)
    if members.isEmpty then throw (.emptyStepper path)
    let frame ← buildFrame path placement plan
    let _ ← assembleMembers path ⟨true, placement.withinSeries⟩ none members
    let members ← assembleMembers path ⟨true, placement.withinSeries⟩ initial members
    return .collection frame (some (.start members.length)) members

/-- The members of a collection at a path with the initial data of the collection, or of one of its siblings. -/
def assembleMembers (path : Path) (placement : Placement) (initial : Option Json) :
    List (String × NodePlan) → Except MountError (List (String × Node))
  | [] => .ok []
  | (name, plan) :: rest => do
    checkName path name
    let node ← assemble (path.join name) placement (initial.bind (Json.field? name)) plan
    let others ← assembleMembers path placement initial rest
    return (name, node) :: others
end

mutual
/-- To assemble a node is to build it without data and to fill it afterwards. -/
theorem assemble_eq (path : Path) (placement : Placement) (initial : Option Json) (plan : NodePlan) :
    assemble path placement initial plan = (build path placement plan).map (fill initial) := by
  match plan with
  | .form plan dialog members =>
      rw [assemble, build, Form.assemble_eq, map_bind, bind_map]
      rfl
  | .collection plan members =>
      rw [assemble, build, bind_map]
      refine bind_congr fun frame => ?_
      split
      · rw [assembleMembers_eq _ _ none members]
        cases templateBuilt : buildMembers (path.join templateSegment) ⟨false, true⟩ members with
        | error problem => rfl
        | ok template =>
            have blank := fillMembers_none templateBuilt
            -- Nothing is wrong with the template, so nothing is wrong with the members at any index.
            have given : (frame.admitted (InitialData.siblingEntries initial)).zipIdx.mapM (fun entry =>
                assembleMembers (path.join (indexText entry.2)) ⟨false, true⟩ (some entry.1) members) =
                .ok ((frame.admitted (InitialData.siblingEntries initial)).zipIdx.map fun entry =>
                  fillMembers (some entry.1) template) := by
              refine mapM_eq_ok fun entry _ => ?_
              rw [assembleMembers_eq _ _ (some entry.1) members, buildMembers_path templateBuilt]
              rfl
            dsimp only [Except.map]
            rw [given, blank]
            refine congrArg (fun given => Except.ok (series frame template (frame.populate template given))) ?_
            rw [List.map_map]
            conv_rhs => rw [← List.zipIdx_map_fst 0 (frame.admitted _), List.map_map]
            rfl
      · rw [assembleMembers_eq _ _ none members, assembleMembers_eq _ _ initial members]
        cases buildMembers path ⟨false, placement.withinSeries⟩ members with
        | error problem => rfl
        | ok entries => rfl
  | .stepper plan members =>
      rw [assemble, build]
      split
      · rfl
      · split
        · rfl
        · dsimp only
          refine (bind_congr fun frame => ?_).trans (bind_map _ _ _).symm
          rw [assembleMembers_eq _ _ none members, assembleMembers_eq _ _ initial members]
          cases buildMembers path ⟨true, placement.withinSeries⟩ members with
          | error problem => rfl
          | ok entries =>
              refine congrArg (fun progress => Except.ok (collection frame (some progress) _)) ?_
              rw [fillMembers_eq, List.length_map]

/-- `assemble_eq` for the members of a collection. -/
theorem assembleMembers_eq (path : Path) (placement : Placement) (initial : Option Json)
    (plans : List (String × NodePlan)) :
    assembleMembers path placement initial plans = (buildMembers path placement plans).map (fillMembers initial) := by
  match plans with
  | [] => rfl
  | (name, plan) :: rest =>
      rw [assembleMembers, buildMembers, assemble_eq (path.join name) placement _ plan,
        assembleMembers_eq path placement initial rest]
      simp only [map_bind, bind_map]
      rfl
end

end Node

end Formwork
