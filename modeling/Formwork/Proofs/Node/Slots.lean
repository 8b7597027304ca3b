import Formwork.Proofs.Node.Effects
import Formwork.Proofs.Node.Listing

/-!
# What a validation leaves of messages

A form or fieldset takes messages as a whole into its slot, where they are added to those that are there
(`Node.groups_modifyGroup`). A validation never adds any: whichever part of a tree it goes through, it leaves
each slot as it is or empties it, and changes nothing else of a form or fieldset (`Group.KeptFrom`). This is so for a
node (`Node.kept_validate`), for a node on the way along some segments (`Node.kept_validatePart`) and for a fieldset
(`Node.kept_validateAt`).
-/

set_option autoImplicit false

namespace Formwork

/-- The listed groups are some of those before, with the messages they had or with none. -/
def Group.KeptFrom (before after : List (Path × Group)) : Prop :=
  ∀ entry ∈ after, ∃ group, (entry.1, group) ∈ before ∧ (entry.2 = group ∨ entry.2 = group.clearErrors)

theorem Group.joins_keptFrom : Node.Joins fun after before => KeptFrom before after where
  refl _ entry inside := ⟨entry.2, inside, .inl rfl⟩
  trans {first second third} one two entry inside := by
    obtain ⟨between, there, same⟩ := one entry inside
    obtain ⟨group, listed, earlier⟩ := two _ there
    refine ⟨group, listed, ?_⟩
    rcases same with same | same
    · exact same ▸ earlier
    · rcases earlier with rfl | rfl
      · exact .inr same
      · exact .inr same
  append {first second others more} one two entry inside := by
    rcases List.mem_append.mp inside with here | later
    · obtain ⟨group, listed, same⟩ := one entry here
      exact ⟨group, List.mem_append_left _ listed, same⟩
    · obtain ⟨group, listed, same⟩ := two entry later
      exact ⟨group, List.mem_append_right _ listed, same⟩

open Formwork.Group (joins_keptFrom)

/-! ## Members -/

namespace Member

theorem groups_eq (path : Path) (members : List (String × Member)) :
    groups path members = members.flatMap fun entry =>
      (entry.2.item.group?.map fun group => (path.join entry.1, group)).toList ++
        groups (path.join entry.1) entry.2.inner := by
  rw [groups, itemsAll_eq, List.filterMap_flatMap]
  refine List.flatMap_congr fun entry _ => ?_
  rw [items_eq, List.filterMap_cons]
  cases entry.2.item <;> rfl

/-- The messages of a group that is settled are kept or forgotten. -/
theorem kept_settle (path place : Path) (members : List (String × Member)) (group : Group) :
    Group.KeptFrom [(place, group)] [(place, settle path members group)] := by
  intro entry inside
  cases List.mem_singleton.mp inside
  refine ⟨group, List.mem_singleton_self _, ?_⟩
  rw [settle]
  split
  · exact .inr rfl
  · exact .inl rfl

/-- A validation of a member keeps or forgets the messages of each group in it, if it does so beneath the member. -/
theorem kept_validate {member : Member}
    (beneath : ∀ place path, Group.KeptFrom (groups path member.inner) (groups path (validateAll place member.inner)))
    (place path : Path) :
    Group.KeptFrom ((member.item.group?.map fun group => (path, group)).toList ++ groups path member.inner)
      (((member.validate place).item.group?.map fun group => (path, group)).toList ++
        groups path (member.validate place).inner) := by
  cases member with
  | field entry => exact joins_keptFrom.refl _
  | fieldset group members =>
      rw [validate]
      split
      · exact joins_keptFrom.refl _
      · exact joins_keptFrom.append (kept_settle place path members group) (beneath place path)

theorem kept_validateAll (place path : Path) (members : List (String × Member)) :
    Group.KeptFrom (groups path members) (groups path (validateAll place members)) := by
  induction members using groupInduction generalizing place path with
  | step members ih =>
      rw [groups_eq, groups_eq, validateAll_eq, List.flatMap_map]
      exact joins_keptFrom.flatMap fun entry inside => kept_validate (ih entry inside) _ _

/-- A validation of the fieldset at some names keeps or forgets the messages of each group. -/
theorem kept_modifyAt (place path : Path) (name : String) (names : List String) (members : List (String × Member)) :
    Group.KeptFrom (groups path members) (groups path (modifyAt (fun
      | .fieldset group members => Member.validate place (.fieldset group members)
      | other => other) name names members)) := by
  induction members using groupInduction generalizing path name names with
  | step members ih =>
      rw [groups_eq, groups_eq, modifyAt_eq]
      refine joins_keptFrom.flatMap_modify (fun entry inside => ?_) name
      dsimp only
      cases names with
      | nil =>
          rw [modify_nil]
          cases entry.2 with
          | field entry => exact joins_keptFrom.refl _
          | fieldset group members => exact kept_validate (fun place path => kept_validateAll place path _) _ _
      | cons next rest =>
          rw [modify_cons_item, modify_cons_inner]
          exact joins_keptFrom.append (joins_keptFrom.refl _) (ih entry inside _ next rest)

end Member

/-! ## Forms -/

namespace Form

theorem kept_validate (place path : Path) (form : Form) :
    Group.KeptFrom (form.groups path) ((form.validate place).groups path) := by
  rw [validate]
  split
  · exact joins_keptFrom.refl _
  · exact joins_keptFrom.append (Member.kept_settle place path form.members form.group)
      (Member.kept_validateAll place path form.members)

theorem kept_validateAt (place path : Path) (names : List String) (form : Form) :
    Group.KeptFrom (form.groups path) ((form.validateAt place names).groups path) := by
  cases names with
  | nil => exact form.kept_validate place path
  | cons name rest =>
      exact joins_keptFrom.append (joins_keptFrom.refl [(path, form.group)])
        (Member.kept_modifyAt place path name rest form.members)

end Form

/-! ## Nodes -/

namespace Node

/-- The groups that a face shows. -/
def Face.groups (path : Path) : Face → List (Path × Group)
  | .form content => content.groups path
  | _ => []

theorem groups_eq_survey (path : Path) (node : Node) : node.groups path = node.survey Face.groups path := by
  have listed := listing_eq_survey Form.groups (fun _ _ => []) path node
  rw [listing_eq_forms] at listed
  refine listed.trans (congrArg (fun take => node.survey take path) ?_)
  funext place shown
  cases shown <;> rfl

theorem kept_validate (here path : Path) (node : Node) :
    Group.KeptFrom (node.groups path) ((node.validate here).groups path) := by
  rw [groups_eq_survey, groups_eq_survey]
  refine related_map joins_keptFrom (fun here place shown => ?_) true here path node
  cases shown with
  | form content =>
      dsimp only [Face.map]
      split
      · exact joins_keptFrom.refl _
      · exact content.kept_validate here place
  | collection frame progress size => exact joins_keptFrom.refl _
  | series frame marks => exact joins_keptFrom.refl _

theorem kept_validatePart (here : Path) (segments : List String) (path : Path) (node : Node) :
    Group.KeptFrom (node.groups path) ((node.modify (Node.validate here) segments).groups path) := by
  rw [groups_eq_survey, groups_eq_survey]
  refine related_along joins_keptFrom (fun rest inner place => ?_) segments path node
  split
  · rw [← groups_eq_survey, ← groups_eq_survey]
    exact kept_validate here place inner
  · exact joins_keptFrom.refl _

theorem kept_validateAt (here : Path) (segments : List String) (path : Path) (node : Node) :
    Group.KeptFrom (node.groups path) ((node.modifyForm (Form.validateAt here) segments).groups path) := by
  rw [groups_eq_survey, groups_eq_survey]
  refine related_along joins_keptFrom (fun names inner place => ?_) segments path node
  cases inner with
  | form content =>
      rw [survey_form, survey_form]
      exact content.kept_validateAt here place names
  | collection frame progress members => exact joins_keptFrom.refl _
  | series frame template siblings => exact joins_keptFrom.refl _

end Node

end Formwork
