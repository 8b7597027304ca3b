import Formwork.Proofs.Building
import Formwork.Proofs.Holdings

/-!
# What is stored

A form stores the values of its fields and which of its buttons are disabled by themselves. Flags and latches are
derived from what is stored, and messages and the state of a dialog come and go. `Form.stored` is the form as it is
stored: without flags and latches, without messages and with its dialog closed. `Form.muted` keeps what is derived.

Deriving flags and latches anew sees nothing else than what is stored (`Form.muted_derive`), and values that are set
in two different fields can be set in either order (`Form.modifyField_comm`).
-/

set_option autoImplicit false

namespace Formwork

/-- The field without its flags and without what is known of its validity. -/
def Field.stored (entry : Field) : Field :=
  { entry with validity := .untouched, hidden := false, disabled := false, required := false }

theorem Field.stored_setValue (value : Value) (entry : Field) :
    (entry.setValue value).stored = entry.stored.setValue value := by
  unfold setValue
  dsimp only
  split <;> rfl

namespace Member

/-! ## Changes along names -/

/-- A change of a member that goes with a change of everything may be made afterwards. -/
theorem map_modify_comm {onField : Field → Field} {onGroup : Group → Group} {change edit : Member → Member}
    (agree : ∀ member, (change member).map onField onGroup = edit (member.map onField onGroup))
    (names : List String) (member : Member) :
    (member.modify change names).map onField onGroup = (member.map onField onGroup).modify edit names := by
  induction member using Member.induction generalizing names with
  | field entry =>
      cases names with
      | nil => exact agree _
      | cons name rest => rfl
  | fieldset group members ih =>
      cases names with
      | nil => exact agree _
      | cons name rest =>
          rw [modify, map, map, modify, mapAll_eq, mapAll_eq, modifyAt_eq, modifyAt_eq]
          exact congrArg _ (Assoc.map_modify_comm (fun entry inside => ih entry inside rest) name)

/-- A change that makes a field of a field, and leaves fieldsets as they are. -/
structure OfFields (change : Member → Member) : Prop where
  field : ∀ entry, ∃ changed, change (.field entry) = .field changed
  fieldset : ∀ group members, change (.fieldset group members) = .fieldset group members

/-- Changes of fields at different names can be made in either order. -/
theorem modify_comm {first second : Member → Member} (ofFirst : OfFields first) (ofSecond : OfFields second)
    {names others : List String} (apart : names ≠ others) (member : Member) :
    (member.modify second others).modify first names = (member.modify first names).modify second others := by
  induction member using Member.induction generalizing names others with
  | field entry =>
      match names, others with
      | [], [] => exact absurd rfl apart
      | [], _ :: _ =>
          obtain ⟨changed, same⟩ := ofFirst.field entry
          simp only [modify, same]
      | _ :: _, [] =>
          obtain ⟨changed, same⟩ := ofSecond.field entry
          simp only [modify, same]
      | _ :: _, _ :: _ => rfl
  | fieldset group members ih =>
      match names, others with
      | [], [] => exact absurd rfl apart
      | [], _ :: _ => simp only [modify, ofFirst.fieldset]
      | _ :: _, [] => simp only [modify, ofSecond.fieldset]
      | name :: rest, other :: further =>
          simp only [modify, modifyAt_eq]
          refine congrArg (Member.fieldset group) (Assoc.modify_comm fun same entry inside => ?_)
          exact ih entry inside fun tails => apart (by rw [same, tails])

/-! ## Deriving anew -/

section Derive

variable {onField drawField : Field → Field} {onGroup drawGroup : Group → Group}
variable (field : ∀ lookup scope hiddenAbove disabledAbove entry,
  onField (Field.refresh lookup scope hiddenAbove disabledAbove entry) =
    (drawField entry).refresh lookup scope hiddenAbove disabledAbove)
variable (group : ∀ lookup path hiddenAbove disabledAbove entry,
  onGroup (Group.refresh lookup path hiddenAbove disabledAbove entry) =
    (drawGroup entry).refresh lookup path hiddenAbove disabledAbove)
variable (shows : ∀ entry, (onGroup entry).hidden = entry.hidden ∧ (onGroup entry).disabled = entry.disabled)
include field group shows

/-- Flags that are derived anew can be derived after fields and groups were redrawn, if those of each of them can. -/
theorem map_refresh_comm (lookup : Lookup) (scope path : Path) (hiddenAbove disabledAbove : Bool) (member : Member) :
    (member.refresh lookup scope path hiddenAbove disabledAbove).map onField onGroup =
      (member.map drawField drawGroup).refresh lookup scope path hiddenAbove disabledAbove := by
  induction member using Member.induction generalizing scope path hiddenAbove disabledAbove with
  | field entry => exact congrArg Member.field (field ..)
  | fieldset own members ih =>
      have fresh := group lookup path hiddenAbove disabledAbove own
      simp only [refresh, map, mapAll_eq, refreshAll_eq, List.map_map, ← fresh, (shows _).1, (shows _).2]
      exact congrArg (Member.fieldset _) (List.map_congr_left fun entry inside =>
        Prod.ext rfl (ih entry inside _ _ _ _))

theorem mapAll_refreshAll_comm (lookup : Lookup) (scope : Path) (hiddenAbove disabledAbove : Bool)
    (members : List (String × Member)) :
    mapAll onField onGroup (refreshAll lookup scope hiddenAbove disabledAbove members) =
      refreshAll lookup scope hiddenAbove disabledAbove (mapAll drawField drawGroup members) := by
  simp only [mapAll_eq, refreshAll_eq, List.map_map]
  exact List.map_congr_left fun entry _ => Prod.ext rfl (map_refresh_comm field group shows ..)

end Derive

/-- Flags that are derived anew depend on what is stored only. -/
theorem mapAll_refreshAll_stored (lookup : Lookup) (scope : Path) (hiddenAbove disabledAbove : Bool)
    (members : List (String × Member)) :
    mapAll Field.clearErrors Group.clearErrors (refreshAll lookup scope hiddenAbove disabledAbove members) =
      refreshAll lookup scope hiddenAbove disabledAbove (mapAll Field.stored Group.asBuilt members) :=
  @mapAll_refreshAll_comm Field.clearErrors Field.stored Group.clearErrors Group.asBuilt (fun _ _ _ _ _ => rfl)
    (fun _ _ _ _ _ => rfl) (fun _ => ⟨rfl, rfl⟩) ..

end Member

namespace Form

/-- The form as it is stored. -/
def stored (form : Form) : Form :=
  let blank := form.map Field.stored Group.asBuilt
  { blank with
    inducers := blank.inducers.map Inducer.asBuilt
    dialog := blank.dialog.map fun dialog => { dialog with isOpen := false } }

/-- The form without messages and with its dialog closed. -/
def muted (form : Form) : Form := form.clearErrors.shut

theorem stored_congr {first second : Form}
    (same : first.map Field.stored Group.asBuilt = second.map Field.stored Group.asBuilt) :
    first.stored = second.stored := by
  simp only [stored, same]

variable (form : Form)

/-! ## What leaves the stored form as it is -/

theorem stored_refresh (lookup : Lookup) (path : Path) : (form.refresh lookup path).stored = form.stored :=
  stored_congr (form.map_refresh (fun _ _ _ _ _ => rfl) (fun _ _ _ _ _ => rfl) lookup path)

theorem stored_latch (lookup : Lookup) (path : Path) : (form.latch lookup path).stored = form.stored := by
  simp only [latch, stored, map, List.map_map]
  rfl

theorem stored_clearErrors : form.clearErrors.stored = form.stored :=
  stored_congr (form.map_map (fun _ => rfl) fun _ => rfl)

theorem stored_validate (path : Path) : (form.validate path).stored = form.stored :=
  stored_congr (form.map_validate (fun _ => rfl) (fun _ => rfl) path)

theorem stored_openDialog : form.openDialog.stored = form.stored := by
  unfold openDialog
  split
  · rename_i dialog isDialog
    split
    · rfl
    · rw [← form.stored_clearErrors]
      simp only [stored, map, clearErrors, isDialog, Option.map_some]
  · rfl

/-! ## Setting values -/

/-- A value that is set is a stored value. -/
theorem stored_modifyField (value : Value) (names : List String) :
    (form.modifyField (Field.setValue value) names).stored = form.stored.modifyField (Field.setValue value) names := by
  cases names with
  | nil => rfl
  | cons name rest =>
      simp only [modifyField, stored, map, Member.mapAll_eq, Member.modifyAt_eq]
      refine congrArg (fun members => Form.mk _ _ _ members) (Assoc.map_modify_comm (fun entry _ => ?_) name)
      refine Member.map_modify_comm (fun member => ?_) rest entry.2
      cases member with
      | field entry => exact congrArg Member.field (entry.stored_setValue value)
      | fieldset group members => rfl

/-- Fields with different names can be changed in either order. -/
theorem modifyField_comm (first second : Field → Field) {names others : List String} (apart : names ≠ others) :
    (form.modifyField second others).modifyField first names =
      (form.modifyField first names).modifyField second others := by
  cases names with
  | nil => rfl
  | cons name rest =>
      cases others with
      | nil => rfl
      | cons other further =>
          simp only [modifyField, Member.modifyAt_eq]
          refine congrArg (fun members => { form with members }) ?_
          refine Assoc.modify_comm fun same entry _ => ?_
          exact Member.modify_comm ⟨fun _ => ⟨_, rfl⟩, fun _ _ => rfl⟩ ⟨fun _ => ⟨_, rfl⟩, fun _ _ => rfl⟩
            (fun tails => apart (by rw [same, tails])) entry.2

/-! ## Deriving anew -/

/-- Flags and latches that are derived anew depend on what is stored only. -/
theorem muted_derive (lookup : Lookup) (path : Path) :
    ((form.refresh lookup path).latch lookup path).muted = (form.stored.refresh lookup path).latch lookup path := by
  simp only [muted, shut, clearErrors, map, latch, refresh, stored, Member.mapAll_refreshAll_stored, List.map_map]
  rfl

/-- Flags can be derived before or after messages are forgotten. -/
theorem clearErrors_refresh (lookup : Lookup) (path : Path) :
    (form.refresh lookup path).clearErrors = form.clearErrors.refresh lookup path :=
  congrArg (fun members => { form.clearErrors.refresh lookup path with members })
    (@Member.mapAll_refreshAll_comm Field.clearErrors _ Group.clearErrors _ (fun _ _ _ _ _ => rfl)
      (fun _ _ _ _ _ => rfl) (fun _ => ⟨rfl, rfl⟩) ..)

theorem clearErrors_latch (lookup : Lookup) (path : Path) :
    (form.latch lookup path).clearErrors = form.clearErrors.latch lookup path := rfl

theorem views_clearErrors {α : Type} {view : Field → α} (keeps : ∀ entry, view entry.clearErrors = view entry)
    (path : Path) : Member.views view path form.clearErrors.members = Member.views view path form.members :=
  (Member.views_mapAll id keeps Group.clearErrors path form.members).trans (List.map_id _)

theorem views_stored {α : Type} {view : Field → α} (keeps : ∀ entry, view entry.stored = view entry) (path : Path) :
    Member.views view path form.stored.members = Member.views view path form.members :=
  (Member.views_mapAll id keeps Group.asBuilt path form.members).trans (List.map_id _)

end Form

end Formwork
