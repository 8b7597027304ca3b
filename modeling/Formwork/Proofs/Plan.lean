import Formwork.Proofs.Recursion

/-!
# The plan of a form

A mounted form still shows the plan it was built from (`Form.plan`): the plans of its fields and
fieldsets under their names, and what it declares about itself. Values, messages, flags and
latches are no part of the plan, so nothing that is done to a form changes it.
-/

set_option autoImplicit false

namespace Formwork

mutual
/-- The plan that a member was built from. -/
def Member.plan : Member → MemberPlan
  | .field entry => .field entry.plan
  | .fieldset group members => .fieldset group.plan (Member.plans members)

/-- The plans of the members of a list. -/
def Member.plans : List (String × Member) → List (String × MemberPlan)
  | [] => []
  | (name, member) :: rest => (name, member.plan) :: Member.plans rest
end

/-- The plan that a form was built from. -/
def Form.plan (form : Form) : NodePlan :=
  .form form.group.plan (form.dialog.map Dialog.plan) (Member.plans form.members)

theorem Member.plans_eq (members : List (String × Member)) :
    plans members = members.map fun entry => (entry.1, entry.2.plan) := by
  induction members with
  | nil => rfl
  | cons entry rest ih => simp only [plans, ih, List.map_cons]

/-! ## What keeps the plan -/

namespace Field

@[simp]
theorem plan_setValue (value : Value) (entry : Field) : (entry.setValue value).plan = entry.plan := by
  unfold setValue
  dsimp only
  split <;> rfl

@[simp]
theorem plan_setErrors (messages : List String) (entry : Field) :
    (entry.setErrors messages).plan = entry.plan := rfl

@[simp]
theorem plan_setSelfDisabled (disabled : Bool) (entry : Field) :
    (entry.setSelfDisabled disabled).plan = entry.plan := rfl

end Field

@[simp]
theorem Group.plan_addErrors (messages : List String) (group : Group) :
    (group.addErrors messages).plan = group.plan := rfl

namespace Member

/-- A change of fields and groups that keeps their plans keeps that of the member. -/
theorem plan_map {onField : Field → Field} {onGroup : Group → Group}
    (keepsField : ∀ entry, (onField entry).plan = entry.plan)
    (keepsGroup : ∀ group, (onGroup group).plan = group.plan) (member : Member) :
    (member.map onField onGroup).plan = member.plan := by
  induction member using Member.induction with
  | field entry => simp only [map, plan, keepsField]
  | fieldset group members ih =>
      simp only [map, plan, keepsGroup, plans_eq, mapAll_eq, List.map_map]
      exact congrArg _ (List.map_congr_left fun entry inside => by simp [ih entry inside])

theorem plans_mapAll {onField : Field → Field} {onGroup : Group → Group}
    (keepsField : ∀ entry, (onField entry).plan = entry.plan)
    (keepsGroup : ∀ group, (onGroup group).plan = group.plan)
    (members : List (String × Member)) : plans (mapAll onField onGroup members) = plans members := by
  simp [plans_eq, mapAll_eq, Function.comp_def, plan_map keepsField keepsGroup]

@[simp]
theorem plan_refresh (lookup : Lookup) (scope path : Path) (hiddenAbove disabledAbove : Bool)
    (member : Member) :
    (member.refresh lookup scope path hiddenAbove disabledAbove).plan = member.plan := by
  induction member using Member.induction generalizing scope path hiddenAbove disabledAbove with
  | field entry => rfl
  | fieldset group members ih =>
      simp only [refresh, plan, plans_eq, refreshAll_eq, List.map_map]
      exact congrArg _ (List.map_congr_left fun entry inside => by simp [ih entry inside])

@[simp]
theorem plans_refreshAll (lookup : Lookup) (scope : Path) (hiddenAbove disabledAbove : Bool)
    (members : List (String × Member)) :
    plans (refreshAll lookup scope hiddenAbove disabledAbove members) = plans members := by
  simp [plans_eq, refreshAll_eq, Function.comp_def]

theorem plan_settle (path : Path) (members : List (String × Member)) (group : Group) :
    (settle path members group).plan = group.plan := by
  unfold settle
  split <;> rfl

@[simp]
theorem plan_validate (path : Path) (member : Member) : (member.validate path).plan = member.plan := by
  induction member using Member.induction generalizing path with
  | field entry => rw [validate]; split <;> rfl
  | fieldset group members ih =>
      rw [validate]
      split
      · rfl
      · simp only [plan, plan_settle, plans_eq, validateAll_eq, List.map_map]
        exact congrArg _ (List.map_congr_left fun entry inside => by simp [ih entry inside])

@[simp]
theorem plans_validateAll (path : Path) (members : List (String × Member)) :
    plans (validateAll path members) = plans members := by
  simp [plans_eq, validateAll_eq, Function.comp_def]

theorem plan_modify {change : Member → Member} (keeps : ∀ member, (change member).plan = member.plan)
    (names : List String) (member : Member) : (member.modify change names).plan = member.plan := by
  induction member using Member.induction generalizing names with
  | field entry => cases names <;> simp [modify, keeps]
  | fieldset group members ih =>
      cases names with
      | nil => simp [modify, keeps]
      | cons name names =>
          simp only [modify, plan, plans_eq, modifyAt_eq]
          exact congrArg _ (Assoc.map_modify (fun entry inside => by simp [ih entry inside]) name)

theorem plans_modifyAt {change : Member → Member}
    (keeps : ∀ member, (change member).plan = member.plan) (name : String) (names : List String)
    (members : List (String × Member)) :
    plans (modifyAt change name names members) = plans members := by
  rw [plans_eq, plans_eq, modifyAt_eq]
  exact Assoc.map_modify (fun entry _ => by simp [plan_modify keeps]) name

@[simp]
theorem plan_fill (initial : Option Json) (member : Member) :
    (member.fill initial).plan = member.plan := by
  induction member using Member.induction generalizing initial with
  | field entry => rfl
  | fieldset group members ih =>
      simp only [fill, plan, plans_eq, fillAll_eq, List.map_map]
      exact congrArg _ (List.map_congr_left fun entry inside => by simp [ih entry inside])

@[simp]
theorem plans_fillAll (initial : Option Json) (members : List (String × Member)) :
    plans (fillAll initial members) = plans members := by
  simp [plans_eq, fillAll_eq, Function.comp_def]

end Member

namespace Form

variable (form : Form)

@[simp]
theorem plan_map {onField : Field → Field} {onGroup : Group → Group}
    (keepsField : ∀ entry, (onField entry).plan = entry.plan)
    (keepsGroup : ∀ group, (onGroup group).plan = group.plan) :
    (form.map onField onGroup).plan = form.plan := by
  simp only [plan, map, keepsGroup, Member.plans_mapAll keepsField keepsGroup]

@[simp]
theorem plan_reset : form.reset.plan = form.plan :=
  form.plan_map (fun _ => rfl) fun _ => rfl

@[simp]
theorem plan_clearErrors : form.clearErrors.plan = form.plan :=
  form.plan_map (fun _ => rfl) fun _ => rfl

@[simp]
theorem plan_refresh (lookup : Lookup) (path : Path) : (form.refresh lookup path).plan = form.plan := by
  simp only [plan, refresh, Member.plans_refreshAll]
  rfl

@[simp]
theorem plan_latch (lookup : Lookup) (path : Path) : (form.latch lookup path).plan = form.plan := rfl

@[simp]
theorem plan_fill (initial : Option Json) : (form.fill initial).plan = form.plan := by
  simp only [plan, fill, Member.plans_fillAll]

@[simp]
theorem plan_validate (path : Path) : (form.validate path).plan = form.plan := by
  unfold validate
  split
  · rfl
  · simp only [plan, Member.plan_settle, Member.plans_validateAll]

@[simp]
theorem plan_validateAt (path : Path) (names : List String) :
    (form.validateAt path names).plan = form.plan := by
  cases names with
  | nil => exact form.plan_validate path
  | cons name rest =>
      simp only [plan, validateAt]
      rw [Member.plans_modifyAt]
      intro member
      cases member with
      | field entry => rfl
      | fieldset group members => exact Member.plan_validate path _

theorem plan_modifyField {change : Field → Field} (keeps : ∀ entry, (change entry).plan = entry.plan)
    (names : List String) : (form.modifyField change names).plan = form.plan := by
  cases names with
  | nil => rfl
  | cons name rest =>
      simp only [plan, modifyField]
      rw [Member.plans_modifyAt]
      intro member
      cases member with
      | field entry => simp only [Member.plan, keeps]
      | fieldset group members => rfl

theorem plan_modifyGroup {change : Group → Group} (keeps : ∀ group, (change group).plan = group.plan)
    (names : List String) : (form.modifyGroup change names).plan = form.plan := by
  cases names with
  | nil => simp only [plan, modifyGroup, keeps]
  | cons name rest =>
      simp only [plan, modifyGroup]
      rw [Member.plans_modifyAt]
      intro member
      cases member with
      | field entry => rfl
      | fieldset group members => simp only [Member.plan, keeps]

@[simp]
theorem plan_shut : form.shut.plan = form.plan := by
  simp only [plan, shut, Option.map_map]
  rfl

@[simp]
theorem plan_openDialog : form.openDialog.plan = form.plan := by
  unfold openDialog
  split
  · rename_i dialog found
    split
    · rfl
    · have cleared := form.plan_clearErrors
      simp only [plan, NodePlan.form.injEq] at cleared ⊢
      exact ⟨cleared.1, by rw [found]; rfl, cleared.2.2⟩
  · rfl

@[simp]
theorem plan_closeDialog (path : Path) (mode : CloseMode) :
    (form.closeDialog path mode).plan = form.plan := by
  unfold closeDialog
  split
  · cases mode with
    | apply => dsimp only; split <;> simp
    | close => simp
    | reset => simp
    | clear => simp
  · rfl

end Form

@[simp]
theorem Frame.plan_latch (lookup : Lookup) (path : Path) (frame : Frame) :
    (frame.latch lookup path).plan = frame.plan := rfl

end Formwork
