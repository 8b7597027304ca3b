import Formwork.Proofs.Erasing

/-!
# A form without its messages

`Form.clearErrors` forgets what is known about the validity of the fields and the messages of the
groups. Validation and the messages of a server touch nothing else: the form is the same as before
once its messages are forgotten (`Form.clearErrors_validate` and so on).
-/

set_option autoImplicit false

namespace Formwork

theorem Field.clearErrors_setErrors (messages : List String) (entry : Field) :
    (entry.setErrors messages).clearErrors = entry.clearErrors := rfl

theorem Group.clearErrors_addErrors (messages : List String) (group : Group) :
    (group.addErrors messages).clearErrors = group.clearErrors := rfl

namespace Member

/-- A member without the messages at and beneath it. -/
def clearErrors (member : Member) : Member := member.map Field.clearErrors Group.clearErrors

/-- The members of a group without the messages at and beneath them. -/
def clearAll (members : List (String × Member)) : List (String × Member) :=
  members.map fun entry => (entry.1, entry.2.clearErrors)

theorem clearErrors_field (entry : Field) : (Member.field entry).clearErrors = .field entry.clearErrors := rfl

theorem clearErrors_fieldset (group : Group) (members : List (String × Member)) :
    (Member.fieldset group members).clearErrors = .fieldset group.clearErrors (clearAll members) := by
  simp only [clearErrors, map, mapAll_eq, clearAll]

end Member

namespace Form

variable (form : Form)

theorem clearErrors_eq : form.clearErrors =
    { form with group := form.group.clearErrors, members := Member.clearAll form.members } := by
  simp only [clearErrors, map, Member.mapAll_eq]
  rfl

theorem clearErrors_clearErrors : form.clearErrors.clearErrors = form.clearErrors :=
  form.map_map (fun _ => rfl) fun _ => rfl

theorem clearErrors_validate (path : Path) : (form.validate path).clearErrors = form.clearErrors :=
  form.map_validate (fun _ => rfl) (fun _ => rfl) path

theorem clearErrors_validateAt (path : Path) (names : List String) :
    (form.validateAt path names).clearErrors = form.clearErrors :=
  form.map_validateAt (fun _ => rfl) (fun _ => rfl) path names

theorem clearErrors_modifyField {change : Field → Field}
    (keeps : ∀ entry, (change entry).clearErrors = entry.clearErrors) (names : List String) :
    (form.modifyField change names).clearErrors = form.clearErrors :=
  form.map_modifyField keeps names

theorem clearErrors_modifyGroup {change : Group → Group}
    (keeps : ∀ group, (change group).clearErrors = group.clearErrors) (names : List String) :
    (form.modifyGroup change names).clearErrors = form.clearErrors :=
  form.map_modifyGroup keeps names

end Form

end Formwork
