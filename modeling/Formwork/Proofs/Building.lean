import Formwork.Proofs.Erasing
import Formwork.Proofs.Node.Moves

/-!
# What building fixes

A form can be taken back to what it was when it was built: no initial data, no value that was stored, no
flags, messages or latches (`Form.asBuilt`). What is left are the plans, the conditions, the rules and the
actions, and nothing that is ever done to a form changes these (`Form.asBuilt_move`). So
whatever a form shows of its conditions or actions, it shows for good.
-/

set_option autoImplicit false

namespace Formwork

/-! ## Fields, groups and inducers -/

/-- The field as it was built. -/
def Field.asBuilt (entry : Field) : Field :=
  { entry with
    button := entry.button.map fun button => { button with selfDisabled := false }
    initial := initialValue entry.plan none
    value := initialValue entry.plan none
    validity := .untouched
    hidden := false
    disabled := false
    required := entry.plan.required && !entry.plan.isButton }

/-- The group as it was built. -/
def Group.asBuilt (group : Group) : Group := { group with errors := [], hidden := false, disabled := false }

/-- The inducer as it was built. -/
def Inducer.asBuilt (inducer : Inducer) : Inducer := { inducer with latched := false }

/-- The frame as it was built. -/
def Frame.asBuilt (frame : Frame) : Frame := { frame with inducer := frame.inducer.map Inducer.asBuilt }

namespace Field

variable (entry : Field)

theorem asBuilt_setValue (value : Value) : (entry.setValue value).asBuilt = entry.asBuilt := by
  unfold setValue
  dsimp only
  split <;> rfl

theorem asBuilt_setErrors (messages : List String) : (entry.setErrors messages).asBuilt = entry.asBuilt := rfl

theorem asBuilt_setSelfDisabled (disabled : Bool) :
    (entry.setSelfDisabled disabled).asBuilt = entry.asBuilt := by
  unfold setSelfDisabled asBuilt
  simp only [Option.map_map]
  rfl

end Field

theorem Group.asBuilt_addErrors (messages : List String) (group : Group) :
    (group.addErrors messages).asBuilt = group.asBuilt := rfl

/-- An elementary change of a frame changes nothing that building fixes. -/
theorem Frame.asBuilt_move {frame later : Frame} (move : Frame.Move frame later) : later.asBuilt = frame.asBuilt := by
  cases move with
  | stay => rfl
  | latch =>
      simp only [latch, asBuilt, Option.map_map]
      rfl

/-! ## Forms -/

namespace Form

/-- The form as it was built. -/
def asBuilt (form : Form) : Form :=
  let blank := form.map Field.asBuilt Group.asBuilt
  { blank with
    inducers := blank.inducers.map Inducer.asBuilt
    dialog := blank.dialog.map fun dialog => { dialog with isOpen := false } }

theorem asBuilt_congr {first second : Form}
    (same : first.map Field.asBuilt Group.asBuilt = second.map Field.asBuilt Group.asBuilt) :
    first.asBuilt = second.asBuilt := by
  simp only [asBuilt, same]

variable (form : Form)

theorem asBuilt_fill (initial : Option Json) : (form.fill initial).asBuilt = form.asBuilt :=
  asBuilt_congr (form.map_fill (fun _ _ => rfl) initial)

theorem asBuilt_refresh (lookup : Lookup) (path : Path) : (form.refresh lookup path).asBuilt = form.asBuilt :=
  asBuilt_congr (form.map_refresh (fun _ _ _ _ _ => rfl) (fun _ _ _ _ _ => rfl) lookup path)

theorem asBuilt_latch (lookup : Lookup) (path : Path) : (form.latch lookup path).asBuilt = form.asBuilt := by
  simp only [latch, asBuilt, map, List.map_map]
  rfl

theorem asBuilt_reset : form.reset.asBuilt = form.asBuilt :=
  asBuilt_congr (form.map_map (fun _ => rfl) fun _ => rfl)

theorem asBuilt_clearErrors : form.clearErrors.asBuilt = form.asBuilt :=
  asBuilt_congr (form.map_map (fun _ => rfl) fun _ => rfl)

theorem asBuilt_validate (path : Path) : (form.validate path).asBuilt = form.asBuilt :=
  asBuilt_congr (form.map_validate (fun _ => rfl) (fun _ => rfl) path)

theorem asBuilt_validateAt (path : Path) (names : List String) :
    (form.validateAt path names).asBuilt = form.asBuilt :=
  asBuilt_congr (form.map_validateAt (fun _ => rfl) (fun _ => rfl) path names)

theorem asBuilt_modifyField {change : Field → Field} (keeps : ∀ entry, (change entry).asBuilt = entry.asBuilt)
    (names : List String) : (form.modifyField change names).asBuilt = form.asBuilt :=
  asBuilt_congr (form.map_modifyField keeps names)

theorem asBuilt_modifyGroup {change : Group → Group} (keeps : ∀ group, (change group).asBuilt = group.asBuilt)
    (names : List String) : (form.modifyGroup change names).asBuilt = form.asBuilt :=
  asBuilt_congr (form.map_modifyGroup keeps names)

theorem asBuilt_shut : form.shut.asBuilt = form.asBuilt := by
  simp only [shut, asBuilt, map, Option.map_map]
  rfl

theorem asBuilt_openDialog : form.openDialog.asBuilt = form.asBuilt := by
  unfold openDialog
  split
  · rename_i dialog isDialog
    split
    · rfl
    · rw [← form.asBuilt_clearErrors]
      simp only [asBuilt, map, clearErrors, isDialog, Option.map_some]
  · rfl

theorem asBuilt_closeDialog (path : Path) (mode : CloseMode) :
    (form.closeDialog path mode).asBuilt = form.asBuilt := by
  unfold closeDialog
  split
  · cases mode with
    | apply =>
        dsimp only
        split
        · rw [asBuilt_shut, asBuilt_validate]
        · rw [asBuilt_validate]
    | close => exact form.asBuilt_shut
    | reset => exact form.asBuilt_reset
    | clear => exact form.reset.asBuilt_shut.trans form.asBuilt_reset
  · rfl

/-- An elementary change of a form changes nothing that building fixes. -/
theorem asBuilt_move {form later : Form} (move : Form.Move form later) : later.asBuilt = form.asBuilt := by
  cases move with
  | stay => rfl
  | refresh => exact form.asBuilt_refresh _ _
  | latch => exact form.asBuilt_latch _ _
  | validate => exact form.asBuilt_validate _
  | validateAt => exact form.asBuilt_validateAt _ _
  | setErrors messages => exact form.asBuilt_modifyField (fun entry => entry.asBuilt_setErrors messages) _
  | setValue value => exact form.asBuilt_modifyField (fun entry => entry.asBuilt_setValue value) _
  | setSelfDisabled disabled => exact form.asBuilt_modifyField (fun entry => entry.asBuilt_setSelfDisabled disabled) _
  | addErrors messages => exact form.asBuilt_modifyGroup (Group.asBuilt_addErrors messages) _
  | clearErrors => exact form.asBuilt_clearErrors
  | reset => exact form.asBuilt_reset
  | openDialog => exact form.asBuilt_openDialog
  | closeDialog => exact form.asBuilt_closeDialog _ _

end Form

end Formwork
