import Formwork.Proofs.Node.Built

/-!
# Fields that are buttons

A field has a button exactly if its plan has the widget of one. A field is built like this
(`Field.isButton_build`), and nothing that is done to it afterwards gives it a button or takes the button away,
for buttons and plans are among what building fixes (`Node.buttons_byBuilding`).
-/

set_option autoImplicit false

namespace Formwork

open Formwork.Text

/-- A field that is built has a button exactly if its plan says so. -/
theorem Field.isButton_build {path : Path} {plan : FieldPlan} {field : Field}
    (built : Field.build path plan = .ok field) : field.isButton = field.plan.isButton := by
  simp only [Field.build, bind_eq_ok, pure_eq_ok] at built
  obtain ⟨_, -, _, -, _, -, _, -, button, compiled, rfl⟩ := built
  change button.isSome = plan.isButton
  unfold compileButton at compiled
  split at compiled
  · rename_i isButton
    dsimp only at compiled
    split at compiled
    · cases compiled
      exact isButton.symm
    · split at compiled
      · cases compiled
        exact isButton.symm
      · cases compiled
  · rename_i isData
    cases compiled
    simpa using isData

namespace Member

/-- Every field beneath the members of a group has a button exactly if its plan says so. -/
def HasPlannedButtons (members : List (String × Member)) : Prop :=
  ∀ names field, Stands members names (.field field) → field.isButton = field.plan.isButton

/-- Members that are built have buttons exactly where their plans say so. -/
theorem hasPlannedButtons_buildAll {path : Path} {plans : List (String × MemberPlan)}
    {members : List (String × Member)} (built : Member.buildAll path plans = .ok members) :
    HasPlannedButtons members := by
  intro names field stands
  have listed : (Path.root.extend ⟨names⟩, Item.field field) ∈ itemsAll .root members :=
    mem_itemsAll_iff.mpr ⟨names, _, rfl, rfl, stands⟩
  have planned : Item.ByBuilding fun item => ∀ entry, item.field? = some entry →
      entry.isButton = entry.plan.isButton := by
    refine ⟨fun path plan field built entry same => ?_, fun _ _ _ _ _ _ same => nomatch same⟩
    obtain rfl := Option.some.inj same
    exact Field.isButton_build built
  exact buildAll_items planned built _ listed field rfl

theorem hasPlannedButtons_iff {members : List (String × Member)} : HasPlannedButtons members ↔
    ∀ entry ∈ fields .root members, entry.2.isButton = entry.2.plan.isButton := by
  constructor
  · rintro planned ⟨place, field⟩ listed
    obtain ⟨names, -, stands⟩ := mem_fields_iff.mp listed
    exact planned names field stands
  · exact fun planned names field stands => planned (Path.root.extend ⟨names⟩, field)
      (mem_fields_iff.mpr ⟨names, rfl, stands⟩)

end Member

/-- Taking a form back to what it was when it was built touches no button and no plan. -/
theorem Form.hasPlannedButtons_asBuilt {form : Form} :
    Member.HasPlannedButtons form.asBuilt.members ↔ Member.HasPlannedButtons form.members := by
  have members : form.asBuilt.members = Member.mapAll Field.asBuilt Group.asBuilt form.members := rfl
  have same (field : Field) : field.asBuilt.isButton = field.isButton := Option.isSome_map
  rw [Member.hasPlannedButtons_iff, Member.hasPlannedButtons_iff, members, Member.fields_mapAll, List.forall_mem_map]
  simp only [same]
  exact Iff.rfl

namespace Node

/-- Building gives buttons to the fields that are planned to be buttons, and to no others. -/
theorem buttons_byBuilding :
    ByBuilding (fun content => Member.HasPlannedButtons content.members) fun _ => True where
  form path placement plan dialog members content built := by
    rw [Form.hasPlannedButtons_asBuilt]
    simp only [Form.build, bind_eq_ok, pure_eq_ok] at built
    obtain ⟨_, -, _, -, _, -, _, -, entries, membersBuilt, rfl⟩ := built
    exact Member.hasPlannedButtons_buildAll membersBuilt
  frame _ _ _ _ _ := trivial

theorem Built.isButton {ofFrame : Frame → Prop} {node : Node}
    (built : node.Built (fun content => Member.HasPlannedButtons content.members) ofFrame) {path place : Path}
    {field : Field} (listed : (place, field) ∈ node.fields path) : field.isButton = field.plan.isButton := by
  obtain ⟨front, content, names, -, stands, member⟩ := mem_fields_iff.mp listed
  cases built.stands stands with
  | form own => exact Form.hasPlannedButtons_asBuilt.mp own names field member

end Node

end Formwork
