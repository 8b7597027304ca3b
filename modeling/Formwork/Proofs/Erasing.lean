import Formwork.Proofs.Plan

/-!
# Erasing what changes

Erasing maps every field and every group of a form to something that leaves out a part of it: the messages, or
everything that was not there when the form was built. What is done to a form touches certain parts of its
fields and groups only, so the form is the same as before once these parts are erased. This is said once
here for any erasing that leaves out what is touched.
-/

set_option autoImplicit false

namespace Formwork

namespace Member

variable {eraseField : Field → Field} {eraseGroup : Group → Group}

/-- An erasing after a change of everything that it leaves out. -/
theorem map_map {onField : Field → Field} {onGroup : Group → Group}
    (keepsField : ∀ entry, eraseField (onField entry) = eraseField entry)
    (keepsGroup : ∀ group, eraseGroup (onGroup group) = eraseGroup group) (member : Member) :
    (member.map onField onGroup).map eraseField eraseGroup = member.map eraseField eraseGroup := by
  induction member using Member.induction with
  | field entry => simp only [map, keepsField]
  | fieldset group members ih =>
      simp only [map, keepsGroup, mapAll_eq, List.map_map]
      exact congrArg _ (List.map_congr_left fun entry inside => by simp [ih entry inside])

theorem mapAll_mapAll {onField : Field → Field} {onGroup : Group → Group}
    (keepsField : ∀ entry, eraseField (onField entry) = eraseField entry)
    (keepsGroup : ∀ group, eraseGroup (onGroup group) = eraseGroup group) (members : List (String × Member)) :
    mapAll eraseField eraseGroup (mapAll onField onGroup members) = mapAll eraseField eraseGroup members := by
  simp [mapAll_eq, Function.comp_def, map_map keepsField keepsGroup]

/-- An erasing that leaves out the flags. -/
theorem map_refresh
    (keepsField : ∀ lookup scope hiddenAbove disabledAbove (entry : Field),
      eraseField (entry.refresh lookup scope hiddenAbove disabledAbove) = eraseField entry)
    (keepsGroup : ∀ lookup path hiddenAbove disabledAbove (group : Group),
      eraseGroup (group.refresh lookup path hiddenAbove disabledAbove) = eraseGroup group)
    (lookup : Lookup) (scope path : Path) (hiddenAbove disabledAbove : Bool) (member : Member) :
    (member.refresh lookup scope path hiddenAbove disabledAbove).map eraseField eraseGroup =
      member.map eraseField eraseGroup := by
  induction member using Member.induction generalizing scope path hiddenAbove disabledAbove with
  | field entry => simp only [refresh, map, keepsField]
  | fieldset group members ih =>
      simp only [refresh, map, keepsGroup, mapAll_eq, refreshAll_eq, List.map_map]
      exact congrArg _ (List.map_congr_left fun entry inside => by simp [ih entry inside])

theorem mapAll_refreshAll
    (keepsField : ∀ lookup scope hiddenAbove disabledAbove (entry : Field),
      eraseField (entry.refresh lookup scope hiddenAbove disabledAbove) = eraseField entry)
    (keepsGroup : ∀ lookup path hiddenAbove disabledAbove (group : Group),
      eraseGroup (group.refresh lookup path hiddenAbove disabledAbove) = eraseGroup group)
    (lookup : Lookup) (scope : Path) (hiddenAbove disabledAbove : Bool) (members : List (String × Member)) :
    mapAll eraseField eraseGroup (refreshAll lookup scope hiddenAbove disabledAbove members) =
      mapAll eraseField eraseGroup members := by
  simp [mapAll_eq, refreshAll_eq, Function.comp_def, map_refresh keepsField keepsGroup]

/-- An erasing that leaves out the initial data. -/
theorem map_fill (keepsField : ∀ initial (entry : Field), eraseField (entry.fill initial) = eraseField entry)
    (initial : Option Json) (member : Member) :
    (member.fill initial).map eraseField eraseGroup = member.map eraseField eraseGroup := by
  induction member using Member.induction generalizing initial with
  | field entry => simp only [fill, map, keepsField]
  | fieldset group members ih =>
      simp only [fill, map, mapAll_eq, fillAll_eq, List.map_map]
      exact congrArg _ (List.map_congr_left fun entry inside => by simp [ih entry inside])

section Messages

variable (keepsField : ∀ entry : Field, eraseField entry.validate = eraseField entry)
variable (keepsGroup : ∀ group : Group, eraseGroup group.clearErrors = eraseGroup group)
include keepsGroup

theorem erase_settle (path : Path) (members : List (String × Member)) (group : Group) :
    eraseGroup (settle path members group) = eraseGroup group := by
  unfold settle
  split
  · exact keepsGroup group
  · rfl

include keepsField

/-- An erasing that leaves out the outcome of the check. -/
theorem map_validate (path : Path) (member : Member) :
    (member.validate path).map eraseField eraseGroup = member.map eraseField eraseGroup := by
  induction member using Member.induction generalizing path with
  | field entry =>
      rw [validate]
      split
      · exact congrArg Member.field (keepsField entry)
      · rfl
  | fieldset group members ih =>
      rw [validate]
      split
      · rfl
      · rw [map, map, erase_settle keepsGroup, mapAll_eq, mapAll_eq, validateAll_eq, List.map_map]
        exact congrArg _ (List.map_congr_left fun entry inside => by simp [ih entry inside])

theorem mapAll_validateAll (path : Path) (members : List (String × Member)) :
    mapAll eraseField eraseGroup (validateAll path members) = mapAll eraseField eraseGroup members := by
  simp [mapAll_eq, validateAll_eq, Function.comp_def, map_validate keepsField keepsGroup]

end Messages

/-- An erasing that leaves out what is changed in the member at some names. -/
theorem map_modify {change : Member → Member}
    (keeps : ∀ member, (change member).map eraseField eraseGroup = member.map eraseField eraseGroup)
    (names : List String) (member : Member) :
    (member.modify change names).map eraseField eraseGroup = member.map eraseField eraseGroup := by
  induction member using Member.induction generalizing names with
  | field entry => cases names <;> simp [modify, keeps]
  | fieldset group members ih =>
      cases names with
      | nil => exact keeps _
      | cons name names =>
          rw [modify, map, map, mapAll_eq, mapAll_eq, modifyAt_eq]
          exact congrArg _ (Assoc.map_modify (fun entry inside => by simp [ih entry inside]) name)

theorem mapAll_modifyAt {change : Member → Member}
    (keeps : ∀ member, (change member).map eraseField eraseGroup = member.map eraseField eraseGroup)
    (name : String) (names : List String) (members : List (String × Member)) :
    mapAll eraseField eraseGroup (modifyAt change name names members) = mapAll eraseField eraseGroup members := by
  rw [mapAll_eq, mapAll_eq, modifyAt_eq]
  exact Assoc.map_modify (fun entry _ => by simp [map_modify keeps]) name

end Member

namespace Form

variable {eraseField : Field → Field} {eraseGroup : Group → Group} (form : Form)

theorem map_map {onField : Field → Field} {onGroup : Group → Group}
    (keepsField : ∀ entry, eraseField (onField entry) = eraseField entry)
    (keepsGroup : ∀ group, eraseGroup (onGroup group) = eraseGroup group) :
    (form.map onField onGroup).map eraseField eraseGroup = form.map eraseField eraseGroup := by
  simp only [map, keepsGroup, Member.mapAll_mapAll keepsField keepsGroup]

theorem map_refresh
    (keepsField : ∀ lookup scope hiddenAbove disabledAbove (entry : Field),
      eraseField (entry.refresh lookup scope hiddenAbove disabledAbove) = eraseField entry)
    (keepsGroup : ∀ lookup path hiddenAbove disabledAbove (group : Group),
      eraseGroup (group.refresh lookup path hiddenAbove disabledAbove) = eraseGroup group)
    (lookup : Lookup) (path : Path) :
    (form.refresh lookup path).map eraseField eraseGroup = form.map eraseField eraseGroup := by
  simp only [map, refresh, keepsGroup, Member.mapAll_refreshAll keepsField keepsGroup]

theorem map_fill (keepsField : ∀ initial (entry : Field), eraseField (entry.fill initial) = eraseField entry)
    (initial : Option Json) : (form.fill initial).map eraseField eraseGroup = form.map eraseField eraseGroup := by
  simp [map, fill, Member.mapAll_eq, Member.fillAll_eq, Function.comp_def, Member.map_fill keepsField]

section Messages

variable (keepsField : ∀ entry : Field, eraseField entry.validate = eraseField entry)
variable (keepsGroup : ∀ group : Group, eraseGroup group.clearErrors = eraseGroup group)
include keepsField keepsGroup

theorem map_validate (path : Path) :
    (form.validate path).map eraseField eraseGroup = form.map eraseField eraseGroup := by
  unfold validate
  split
  · rfl
  · simp only [map, Member.erase_settle keepsGroup, Member.mapAll_validateAll keepsField keepsGroup]

theorem map_validateAt (path : Path) (names : List String) :
    (form.validateAt path names).map eraseField eraseGroup = form.map eraseField eraseGroup := by
  cases names with
  | nil => exact form.map_validate keepsField keepsGroup path
  | cons name rest =>
      simp only [map, validateAt]
      rw [Member.mapAll_modifyAt]
      intro member
      cases member with
      | field entry => rfl
      | fieldset group members => exact Member.map_validate keepsField keepsGroup path _

end Messages

theorem map_modifyField {change : Field → Field} (keeps : ∀ entry, eraseField (change entry) = eraseField entry)
    (names : List String) :
    (form.modifyField change names).map eraseField eraseGroup = form.map eraseField eraseGroup := by
  cases names with
  | nil => rfl
  | cons name rest =>
      simp only [map, modifyField]
      rw [Member.mapAll_modifyAt]
      intro member
      cases member with
      | field entry => exact congrArg Member.field (keeps entry)
      | fieldset group members => rfl

theorem map_modifyGroup {change : Group → Group} (keeps : ∀ group, eraseGroup (change group) = eraseGroup group)
    (names : List String) :
    (form.modifyGroup change names).map eraseField eraseGroup = form.map eraseField eraseGroup := by
  cases names with
  | nil => simp only [map, modifyGroup, keeps]
  | cons name rest =>
      simp only [map, modifyGroup]
      rw [Member.mapAll_modifyAt]
      intro member
      cases member with
      | field entry => rfl
      | fieldset group members => rw [Member.map, Member.map, keeps]

end Form

end Formwork
