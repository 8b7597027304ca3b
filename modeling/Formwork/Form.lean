import Formwork.Field

/-!
# Forms

A form holds fields and fieldsets, and a fieldset holds fields and further fieldsets. What
they have in common is a `Group`: conditions, the messages that are shown for it as a whole,
and whether it is hidden or disabled. A form may besides be the content of a dialog and
have inducers, which open and close it.

Nothing here holds a path. The path of a field is the path of its form followed by the
names that lead to it, so it is computed by whoever walks down (`Member.itemsAll`), and
`Member.find?` follows the same names.
-/

set_option autoImplicit false

namespace Formwork

/-! ## Groups -/

/-- What a form and a fieldset hold besides their members. -/
structure Group where
  plan : GroupPlan
  visibility : Visibility
  disableWhile : Option Expression
  /-- Messages about the group as a whole. -/
  errors : List String
  hidden : Bool
  disabled : Bool
deriving Repr

namespace Group

/-- The group of a plan at a path. -/
def build (path : Path) (plan : GroupPlan) : Except MountError Group := do
  let visibility ← Visibility.compile path plan.conditions.showWhile plan.conditions.hideWhile
  let disableWhile ← compileOptional path .disabling plan.conditions.disableWhile
  return { plan, visibility, disableWhile, errors := [], hidden := false, disabled := false }

/-- The group at a path with its flags derived anew, inside a group that is hidden or disabled
as given. -/
def refresh (lookup : Lookup) (path : Path) (hiddenAbove disabledAbove : Bool) (group : Group) : Group :=
  { group with
    hidden := hiddenAbove || group.visibility.hides path lookup
    disabled := disabledAbove || holdsOptional path lookup group.disableWhile }

/-- Adds messages from elsewhere to the messages about the group. -/
def addErrors (messages : List String) (group : Group) : Group :=
  { group with errors := group.errors ++ messages }

def clearErrors (group : Group) : Group := { group with errors := [] }

end Group

/-! ## Members -/

/-- A member of a form or fieldset. -/
inductive Member where
  | field (field : Field)
  | fieldset (group : Group) (members : List (String × Member))

/-- What stands at one position beneath a form. -/
inductive Item where
  | field (field : Field)
  | fieldset (group : Group)
deriving Repr

def Item.field? : Item → Option Field
  | .field entry => some entry
  | .fieldset _ => none

def Item.group? : Item → Option Group
  | .field _ => none
  | .fieldset group => some group

namespace Member

mutual
/-- A member at a path and everything beneath it, in the order of rendering. -/
def items (path : Path) : Member → List (Path × Item)
  | .field entry => [(path, .field entry)]
  | .fieldset group members => (path, .fieldset group) :: itemsAll path members

/-- Everything beneath the members of a group at a path. -/
def itemsAll (path : Path) : List (String × Member) → List (Path × Item)
  | [] => []
  | (name, member) :: rest => member.items (path.join name) ++ itemsAll path rest
end

/-- The fields beneath the members of a group at a path. -/
def fields (path : Path) (members : List (String × Member)) : List (Path × Field) :=
  (itemsAll path members).filterMap fun (place, item) => item.field?.map (place, ·)

/-- The fieldsets beneath the members of a group at a path. -/
def groups (path : Path) (members : List (String × Member)) : List (Path × Group) :=
  (itemsAll path members).filterMap fun (place, item) => item.group?.map (place, ·)

mutual
/-- The member that some names lead to from a member. -/
def get? : List String → Member → Option Member
  | [], member => some member
  | _ :: _, .field _ => none
  | name :: names, .fieldset _ members => find? name names members

/-- The member that a name and further names lead to from the members of a group. -/
def find? (name : String) (names : List String) : List (String × Member) → Option Member
  | [] => none
  | (other, member) :: rest => if other = name then member.get? names else find? name names rest
end

mutual
/-- Changes the member that some names lead to from a member. -/
def modify (change : Member → Member) : List String → Member → Member
  | [], member => change member
  | _ :: _, .field entry => .field entry
  | name :: names, .fieldset group members => .fieldset group (modifyAt change name names members)

/-- Changes the member that a name and further names lead to from the members of a group. -/
def modifyAt (change : Member → Member) (name : String) (names : List String) :
    List (String × Member) → List (String × Member)
  | [] => []
  | (other, member) :: rest =>
    if other = name then (other, member.modify change names) :: rest
    else (other, member) :: modifyAt change name names rest
end

mutual
/-- Changes every field and every fieldset at and beneath a member. -/
def map (onField : Field → Field) (onGroup : Group → Group) : Member → Member
  | .field entry => .field (onField entry)
  | .fieldset group members => .fieldset (onGroup group) (mapAll onField onGroup members)

/-- Changes every field and every fieldset beneath the members of a group. -/
def mapAll (onField : Field → Field) (onGroup : Group → Group) :
    List (String × Member) → List (String × Member)
  | [] => []
  | (name, member) :: rest => (name, member.map onField onGroup) :: mapAll onField onGroup rest
end

mutual
/-- A member at a path with its flags derived anew, inside a group at `scope` that is hidden or
disabled as given. -/
def refresh (lookup : Lookup) (scope path : Path) (hiddenAbove disabledAbove : Bool) : Member → Member
  | .field entry => .field (entry.refresh lookup scope hiddenAbove disabledAbove)
  | .fieldset group members =>
    let fresh := group.refresh lookup path hiddenAbove disabledAbove
    .fieldset fresh (refreshAll lookup path fresh.hidden fresh.disabled members)

/-- The members of a group at `scope`, which is hidden or disabled as given, with their flags
derived anew. -/
def refreshAll (lookup : Lookup) (scope : Path) (hiddenAbove disabledAbove : Bool) :
    List (String × Member) → List (String × Member)
  | [] => []
  | (name, member) :: rest =>
    (name, member.refresh lookup scope (scope.join name) hiddenAbove disabledAbove) ::
      refreshAll lookup scope hiddenAbove disabledAbove rest
end

/-! ### Validation -/

/-- The operable fields beneath the members of a group at a path. -/
def operable (path : Path) (members : List (String × Member)) : List (Path × Field) :=
  (fields path members).filter fun (_, entry) => entry.isOperable

/-- The operable fields that are invalid, with their messages. -/
def failures (path : Path) (members : List (String × Member)) : List (Path × List String) :=
  (operable path members).filterMap fun (place, entry) =>
    if entry.isValid then none else some (place, entry.check)

/-- The messages of a group after a validation of the given members: they stay only while one
of the fields is invalid. -/
def settle (path : Path) (members : List (String × Member)) (group : Group) : Group :=
  if (failures path members).isEmpty then group.clearErrors else group

mutual
/-- Records the outcome of the check on every operable field at and beneath a member. A hidden
fieldset is left as it is. -/
def validate (path : Path) : Member → Member
  | .field entry => .field (if entry.isOperable then entry.validate else entry)
  | .fieldset group members =>
    if group.hidden then .fieldset group members
    else .fieldset (settle path members group) (validateAll path members)

/-- `validate` for the members of a group at a path. -/
def validateAll (path : Path) : List (String × Member) → List (String × Member)
  | [] => []
  | (name, member) :: rest => (name, member.validate (path.join name)) :: validateAll path rest
end

mutual
/-- Whether the operable fields are valid and no visible fieldset shows messages. -/
def isValid : Member → Bool
  | .field entry => !entry.isOperable || entry.isValid
  | .fieldset group members => group.hidden || (group.errors.isEmpty && areValid members)

/-- `isValid` for all members of a list. -/
def areValid : List (String × Member) → Bool
  | [] => true
  | (_, member) :: rest => member.isValid && areValid rest
end

end Member

/-! ## Forms -/

/-- The state of a dialog. -/
structure Dialog where
  plan : DialogPlan
  isOpen : Bool
deriving DecidableEq, Repr

/-- How a dialog is left. -/
inductive CloseMode where
  /-- Close if the form is valid. -/
  | apply
  /-- Close in any case. -/
  | close
  /-- Restore the initial values and stay open. -/
  | reset
  /-- Restore the initial values and close. -/
  | clear
deriving DecidableEq, Repr

/-- The mode with a name. -/
def CloseMode.ofName? : String → Option CloseMode
  | "apply" => some .apply
  | "close" => some .close
  | "reset" => some .reset
  | "clear" => some .clear
  | _ => none

/-- A mounted form. -/
structure Form where
  group : Group
  inducers : List Inducer
  /-- Present if the form is the content of a dialog. -/
  dialog : Option Dialog
  members : List (String × Member)

namespace Form

/-- Whether the form is the content of a dialog that is open. -/
def isOpenDialog (form : Form) : Bool :=
  match form.dialog with
  | some dialog => dialog.isOpen
  | none => false

/-- Whether the form is the content of a dialog that is closed. Such a form takes no part in
validation. -/
def isClosedDialog (form : Form) : Bool :=
  match form.dialog with
  | some dialog => !dialog.isOpen
  | none => false

/-- The fields of a form at a path. -/
def fields (path : Path) (form : Form) : List (Path × Field) := Member.fields path form.members

/-- The form itself and its fieldsets. -/
def groups (path : Path) (form : Form) : List (Path × Group) :=
  (path, form.group) :: Member.groups path form.members

/-- The field that some names lead to. -/
def field? (names : List String) (form : Form) : Option Field :=
  match names with
  | [] => none
  | name :: rest =>
    match Member.find? name rest form.members with
    | some (.field field) => some field
    | _ => none

/-- The group of the form or of the fieldset that some names lead to. -/
def group? (names : List String) (form : Form) : Option Group :=
  match names with
  | [] => some form.group
  | name :: rest =>
    match Member.find? name rest form.members with
    | some (.fieldset group _) => some group
    | _ => none

/-- Changes the field that some names lead to. -/
def modifyField (change : Field → Field) (names : List String) (form : Form) : Form :=
  match names with
  | [] => form
  | name :: rest =>
    { form with members := Member.modifyAt (fun
        | .field field => .field (change field)
        | other => other) name rest form.members }

/-- Changes the group of the form or of the fieldset that some names lead to. -/
def modifyGroup (change : Group → Group) (names : List String) (form : Form) : Form :=
  match names with
  | [] => { form with group := change form.group }
  | name :: rest =>
    { form with members := Member.modifyAt (fun
        | .fieldset group members => .fieldset (change group) members
        | other => other) name rest form.members }

/-- Changes all fields and all groups of the form. -/
def map (onField : Field → Field) (onGroup : Group → Group) (form : Form) : Form :=
  { form with
    group := onGroup form.group
    members := Member.mapAll onField onGroup form.members }

/-- Restores the values at mounting and forgets all messages. -/
def reset (form : Form) : Form := form.map Field.reset Group.clearErrors

/-- Forgets all messages. -/
def clearErrors (form : Form) : Form := form.map Field.clearErrors Group.clearErrors

/-- The form at a path with all flags derived anew. -/
def refresh (lookup : Lookup) (path : Path) (form : Form) : Form :=
  let group := form.group.refresh lookup path false false
  { form with
    group
    members := Member.refreshAll lookup path group.hidden group.disabled form.members }

/-! ### Validation -/

/-- The operable fields that are invalid, with their messages. -/
def failures (path : Path) (form : Form) : List (Path × List String) :=
  Member.failures path form.members

/-- Records the outcome of the check on every operable field; a hidden form is left as it is. -/
def validate (path : Path) (form : Form) : Form :=
  if form.group.hidden then form
  else { form with
    group := Member.settle path form.members form.group
    members := Member.validateAll path form.members }

/-- The invalid fields of the fieldset at a path that some names lead to. -/
def failuresAt (path : Path) (names : List String) (form : Form) : List (Path × List String) :=
  match names with
  | [] => form.failures path
  | name :: rest =>
    match Member.find? name rest form.members with
    | some (.fieldset _ members) => Member.failures path members
    | _ => []

/-- Records the outcome of the check in the fieldset at a path that some names lead to. -/
def validateAt (path : Path) (names : List String) (form : Form) : Form :=
  match names with
  | [] => form.validate path
  | name :: rest =>
    { form with members := Member.modifyAt (fun
        | .fieldset group members => Member.validate path (.fieldset group members)
        | other => other) name rest form.members }

/-- Whether the operable fields are valid and no visible group shows messages. -/
def isValid (form : Form) : Bool :=
  form.group.hidden || (form.group.errors.isEmpty && Member.areValid form.members)

/-! ### Dialogs and inducers -/

/-- Opens the dialog of the form. Opening forgets the messages of the last time. -/
def openDialog (form : Form) : Form :=
  match form.dialog with
  | some dialog =>
    if dialog.isOpen then form else { form.clearErrors with dialog := some { dialog with isOpen := true } }
  | none => form

/-- The form with its dialog, if it has one, closed. -/
def shut (form : Form) : Form :=
  { form with dialog := form.dialog.map fun dialog => { dialog with isOpen := false } }

/-- Leaves the dialog of the form, if it is open. -/
def closeDialog (path : Path) (mode : CloseMode) (form : Form) : Form :=
  if form.isOpenDialog then
    match mode with
    | .apply => if (form.failures path).isEmpty then (form.validate path).shut else form.validate path
    | .close => form.shut
    | .reset => form.reset
    | .clear => form.reset.shut
  else form

/-- The inducers that have turned true since they were last remembered. -/
def rising (lookup : Lookup) (path : Path) (form : Form) : List InducedEvent :=
  (form.inducers.filter (·.rises path lookup)).map fun inducer => ⟨inducer.induction, path⟩

/-- The form with the truth of its inducers remembered. -/
def latch (lookup : Lookup) (path : Path) (form : Form) : Form :=
  { form with inducers := form.inducers.map (·.latch path lookup) }

/-! ### Data -/

/-- The values of the operable fields. -/
def collected (path : Path) (form : Form) : List (Path × Value) :=
  (Member.operable path form.members).map fun (place, field) => (place, field.value)

/-- The part of a payload for the form: its fields by their dotted paths inside the form. -/
def wire (form : Form) : Json :=
  .object (((form.fields .root).filter fun (_, field) => field.isSent).map fun (place, field) =>
    (place.text, field.wireValue))

end Form

end Formwork
