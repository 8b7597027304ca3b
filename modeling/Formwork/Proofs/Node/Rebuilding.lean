import Formwork.Proofs.Node.Mounting

/-!
# Building elsewhere

Building looks at paths only to say where something is wrong. So a plan that is built at one path is built at
every other one, and the same node comes out (`Node.build_path`).
-/

set_option autoImplicit false

namespace Formwork

variable {path other : Path}

/-! ## Conditions and actions -/

theorem compileCondition_path {role : Role} {source : String} {expression : Expression}
    (compiled : compileCondition path role source = .ok expression) :
    compileCondition other role source = .ok expression := by
  unfold compileCondition at compiled ⊢
  split at compiled
  · exact compiled
  · cases compiled

theorem compileOptional_path {role : Role} {source : Option String} {found : Option Expression}
    (compiled : compileOptional path role source = .ok found) : compileOptional other role source = .ok found := by
  cases source with
  | none => exact compiled
  | some text =>
      obtain ⟨expression, read, rfl⟩ := map_eq_ok.mp compiled
      exact map_eq_ok.mpr ⟨expression, compileCondition_path read, rfl⟩

theorem Visibility.compile_path {showWhile hideWhile : Option String} {visibility : Visibility}
    (compiled : Visibility.compile path showWhile hideWhile = .ok visibility) :
    Visibility.compile other showWhile hideWhile = .ok visibility := by
  unfold Visibility.compile at compiled ⊢
  split at compiled
  · cases compiled
  · obtain ⟨expression, read, rfl⟩ := map_eq_ok.mp compiled
    exact map_eq_ok.mpr ⟨expression, compileCondition_path read, rfl⟩
  · obtain ⟨expression, read, rfl⟩ := map_eq_ok.mp compiled
    exact map_eq_ok.mpr ⟨expression, compileCondition_path read, rfl⟩
  · exact compiled

namespace Inducer

theorem compile_path {induction : Induction} {source : String} {inducer : Inducer}
    (compiled : Inducer.compile path induction source = .ok inducer) :
    Inducer.compile other induction source = .ok inducer := by
  obtain ⟨expression, read, rfl⟩ := map_eq_ok.mp compiled
  exact map_eq_ok.mpr ⟨expression, compileCondition_path read, rfl⟩

theorem compileOptional_path {induction : Induction} {source : Option String} {found : Option Inducer}
    (compiled : Inducer.compileOptional path induction source = .ok found) :
    Inducer.compileOptional other induction source = .ok found := by
  cases source with
  | none => exact compiled
  | some text =>
      obtain ⟨inducer, read, rfl⟩ := map_eq_ok.mp compiled
      exact map_eq_ok.mpr ⟨inducer, compile_path read, rfl⟩

end Inducer

theorem compileActivation_path {placement : Placement} {source : Option String} {found : Option Inducer}
    (compiled : compileActivation path placement source = .ok found) :
    compileActivation other placement source = .ok found := by
  cases source with
  | none => exact compiled
  | some text =>
      unfold compileActivation at compiled ⊢
      dsimp only at compiled ⊢
      split at compiled
      · rename_i isStep
        obtain ⟨inducer, read, rfl⟩ := map_eq_ok.mp compiled
        rw [if_pos isStep]
        exact map_eq_ok.mpr ⟨inducer, Inducer.compile_path read, rfl⟩
      · cases compiled

theorem checkName_path {name : String} {outcome : Unit} (checked : checkName path name = .ok outcome) :
    checkName other name = .ok outcome := by
  unfold checkName at checked ⊢
  split at checked
  · rename_i isName
    rw [if_pos isName]
  · cases checked

/-! ## Members -/

namespace Field

theorem compilePattern_path {source : Option String} {found : Option Pattern}
    (compiled : compilePattern path source = .ok found) : compilePattern other source = .ok found := by
  unfold compilePattern at compiled ⊢
  split at compiled
  · exact compiled
  · split at compiled
    · exact compiled
    · cases compiled

theorem compileButton_path {plan : FieldPlan} {found : Option Button}
    (compiled : compileButton path plan = .ok found) : compileButton other plan = .ok found := by
  unfold compileButton at compiled ⊢
  split
  · rename_i isButton
    rw [if_pos isButton] at compiled
    dsimp only at compiled ⊢
    split at compiled
    · exact compiled
    · split at compiled
      · exact compiled
      · cases compiled
  · rename_i notButton
    rwa [if_neg notButton] at compiled

theorem build_path {plan : FieldPlan} {entry : Field} (built : Field.build path plan = .ok entry) :
    Field.build other plan = .ok entry := by
  simp only [Field.build, bind_eq_ok, pure_eq_ok] at built ⊢
  obtain ⟨visibility, shows, disabling, disables, requiring, requires, pattern, restricts, button, acts, rfl⟩ := built
  exact ⟨_, Visibility.compile_path shows, _, compileOptional_path disables, _, compileOptional_path requires, _,
    compilePattern_path restricts, _, compileButton_path acts, rfl⟩

end Field

theorem Group.build_path {plan : GroupPlan} {group : Group} (built : Group.build path plan = .ok group) :
    Group.build other plan = .ok group := by
  simp only [Group.build, bind_eq_ok, pure_eq_ok] at built ⊢
  obtain ⟨visibility, shows, disabling, disables, rfl⟩ := built
  exact ⟨_, Visibility.compile_path shows, _, compileOptional_path disables, rfl⟩

namespace Member

theorem checkFieldset_path {conditions : Conditions} {outcome : Unit}
    (checked : checkFieldset path conditions = .ok outcome) : checkFieldset other conditions = .ok outcome := by
  unfold checkFieldset at checked ⊢
  split_ifs at checked ⊢
  exact checked

mutual
theorem build_path {path other : Path} {plan : MemberPlan} {member : Member}
    (built : Member.build path plan = .ok member) : Member.build other plan = .ok member := by
  match plan with
  | .field plan =>
      simp only [Member.build, bind_eq_ok, pure_eq_ok] at built ⊢
      obtain ⟨entry, entryBuilt, rfl⟩ := built
      exact ⟨entry, Field.build_path entryBuilt, rfl⟩
  | .fieldset plan members =>
      simp only [Member.build, bind_eq_ok, pure_eq_ok] at built ⊢
      obtain ⟨outcome, checked, group, groupBuilt, entries, entriesBuilt, rfl⟩ := built
      exact ⟨outcome, checkFieldset_path checked, group, Group.build_path groupBuilt, entries,
        buildAll_path entriesBuilt, rfl⟩

/-- `build_path` for the members of a group. -/
theorem buildAll_path {path other : Path} {plans : List (String × MemberPlan)} {members : List (String × Member)}
    (built : Member.buildAll path plans = .ok members) : Member.buildAll other plans = .ok members := by
  match plans with
  | [] => exact built
  | (name, plan) :: rest =>
      simp only [Member.buildAll, bind_eq_ok, pure_eq_ok] at built ⊢
      obtain ⟨outcome, checked, member, memberBuilt, others, othersBuilt, rfl⟩ := built
      exact ⟨outcome, checkName_path checked, member, build_path memberBuilt, others, buildAll_path othersBuilt, rfl⟩
end

end Member

theorem Form.build_path {placement : Placement} {plan : GroupPlan} {dialog : Option DialogPlan}
    {members : List (String × MemberPlan)} {content : Form}
    (built : Form.build path placement plan dialog members = .ok content) :
    Form.build other placement plan dialog members = .ok content := by
  simp only [Form.build, bind_eq_ok, pure_eq_ok] at built ⊢
  obtain ⟨opening, opens, closing, closes, activating, activates, group, groupBuilt, entries, entriesBuilt,
    rfl⟩ := built
  exact ⟨_, Inducer.compileOptional_path opens, _, Inducer.compileOptional_path closes, _,
    compileActivation_path activates, _, Group.build_path groupBuilt, _, Member.buildAll_path entriesBuilt, rfl⟩

/-! ## Nodes -/

namespace Node

theorem buildFrame_path {placement : Placement} {plan : CollectionPlan} {frame : Frame}
    (built : buildFrame path placement plan = .ok frame) : buildFrame other placement plan = .ok frame := by
  obtain ⟨rfl, bounds, activates⟩ := buildFrame_eq_ok built
  unfold buildFrame
  split
  · rename_i greatest bound
    have enough : ¬ greatest < frame.plan.minSiblings.getD 0 := Nat.not_lt.mpr (bounds greatest bound)
    dsimp only
    rw [if_neg enough]
    exact bind_eq_ok.mpr ⟨_, compileActivation_path activates, rfl⟩
  · exact bind_eq_ok.mpr ⟨_, compileActivation_path activates, rfl⟩

mutual
/-- The same node is built at every path. -/
theorem build_path {path other : Path} {placement : Placement} {plan : NodePlan} {node : Node}
    (built : Node.build path placement plan = .ok node) : Node.build other placement plan = .ok node := by
  match plan with
  | .form plan dialog members =>
      simp only [Node.build, bind_eq_ok, pure_eq_ok] at built ⊢
      obtain ⟨content, contentBuilt, rfl⟩ := built
      exact ⟨content, Form.build_path contentBuilt, rfl⟩
  | .collection plan members =>
      simp only [Node.build, bind_eq_ok] at built ⊢
      obtain ⟨frame, frameBuilt, built⟩ := built
      refine ⟨frame, buildFrame_path frameBuilt, ?_⟩
      split at built
      · rename_i repeatable
        rw [if_pos repeatable]
        simp only [bind_eq_ok, pure_eq_ok] at built ⊢
        obtain ⟨template, templateBuilt, rfl⟩ := built
        exact ⟨template, buildMembers_path templateBuilt, rfl⟩
      · rename_i single
        rw [if_neg single]
        simp only [bind_eq_ok, pure_eq_ok] at built ⊢
        obtain ⟨entries, entriesBuilt, rfl⟩ := built
        exact ⟨entries, buildMembers_path entriesBuilt, rfl⟩
  | .stepper plan members =>
      simp only [Node.build] at built ⊢
      split at built
      · cases built
      · rename_i single
        rw [if_neg single]
        split at built
        · cases built
        · rename_i some
          rw [if_neg some]
          simp only [bind_eq_ok, pure_eq_ok] at built ⊢
          obtain ⟨frame, frameBuilt, entries, entriesBuilt, rfl⟩ := built
          exact ⟨frame, buildFrame_path frameBuilt, entries, buildMembers_path entriesBuilt, rfl⟩

/-- `build_path` for the members of a collection. -/
theorem buildMembers_path {path other : Path} {placement : Placement} {plans : List (String × NodePlan)}
    {members : List (String × Node)} (built : Node.buildMembers path placement plans = .ok members) :
    Node.buildMembers other placement plans = .ok members := by
  match plans with
  | [] => exact built
  | (name, plan) :: rest =>
      simp only [Node.buildMembers, bind_eq_ok, pure_eq_ok] at built ⊢
      obtain ⟨outcome, checked, node, nodeBuilt, others, othersBuilt, rfl⟩ := built
      exact ⟨outcome, checkName_path checked, node, build_path nodeBuilt, others, buildMembers_path othersBuilt, rfl⟩
end

end Node

end Formwork
