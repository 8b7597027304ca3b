import Formwork.Proofs.Tree.FullSubmissions
import Formwork.Proofs.Tree.Unseen

/-!
# Validation with and without a record

A tree can be asked whether it is valid (`Tree.isValid`), and it can be validated, which answers what has failed and
records it (`Tree.validate`). Both pass over the same parts of the tree: pristine siblings, the forms of closed
dialogs, hidden forms and fieldsets, and fields that are not operable.

The report of a validation tells of the fields that fail on this way, each under its path below the root, in the
order of rendering (`Tree.Validates`). A valid tree has a valid report, and after a valid report the tree is valid.
The validation changes nothing but what is recorded, and what is recorded has no part in it.
-/

set_option autoImplicit false

namespace Formwork

open Formwork.Text

/-! ## The fields that fail -/

namespace Member

mutual
/-- The fields that fail at and beneath a member. A hidden fieldset is passed over with everything in it. -/
def failing (path : Path) : Member → List (Path × Field)
  | .field entry => if entry.isOperable && !entry.isValid then [(path, entry)] else []
  | .fieldset group members => if group.hidden then [] else failingAll path members

/-- `failing` for the members of a group at a path. -/
def failingAll (path : Path) : List (String × Member) → List (Path × Field)
  | [] => []
  | (name, member) :: rest => member.failing (path.join name) ++ failingAll path rest
end

theorem failingAll_eq (path : Path) (members : List (String × Member)) :
    failingAll path members = members.flatMap fun entry => entry.2.failing (path.join entry.1) := by
  induction members with
  | nil => rfl
  | cons entry rest ih => rw [failingAll, ih, List.flatMap_cons]

section Fresh

variable {lookup : Lookup} {scope : Path} {hiddenAbove disabledAbove : Bool} {members : List (String × Member)}

/-- In a fresh group passing over hidden fieldsets leaves out no operable field that is invalid. -/
theorem failingAll_of_fresh (fresh : refreshAll lookup scope hiddenAbove disabledAbove members = members)
    (path : Path) :
    failingAll path members = (operable path members).filter fun entry => !entry.2.isValid := by
  induction members using groupInduction generalizing scope hiddenAbove disabledAbove path with
  | step members ih =>
      rw [failingAll_eq, operable_eq, List.filter_flatMap]
      refine List.flatMap_congr fun entry inside => ?_
      have inner := (flags_of_refresh_eq_self (refreshAll_eq_self_iff.mp fresh entry inside)).2.2
      have below := ih entry inside inner (path.join entry.1)
      obtain ⟨name, member⟩ := entry
      cases member with
      | field entry =>
          rw [failing]
          have leaf : operable (path.join name) (Member.field entry).inner = [] := rfl
          cases isOperable : entry.isOperable with
          | false => simp [item, Item.field?, leaf, isOperable]
          | true => cases isValid : entry.isValid <;> simp [item, Item.field?, leaf, isOperable, isValid]
      | fieldset group members =>
          rw [failing]
          split
          · rename_i isHidden
            rw [show (Member.fieldset group members).hidden = true from isHidden] at inner
            have none : operable (path.join name) (Member.fieldset group members).inner = [] :=
              operable_of_hidden inner (path.join name)
            simp [item, Item.field?, none]
          · exact below

/-- Everything in a fresh group that is hidden is hidden itself. -/
theorem Stands.hidden {names : List String} {member : Member} (stands : Stands members names member)
    (fresh : refreshAll lookup scope true disabledAbove members = members) : member.hidden = true := by
  induction stands generalizing scope disabledAbove with
  | here inside => exact (flags_of_refresh_eq_self (refreshAll_eq_self_iff.mp fresh _ inside)).1
  | beneath inside _ ih =>
      obtain ⟨hidden, -, inner⟩ := flags_of_refresh_eq_self (refreshAll_eq_self_iff.mp fresh _ inside)
      rw [hidden, Bool.true_or] at inner
      exact ih inner

/-- No visible fieldset of a fresh group shows messages if the group is valid. -/
theorem Stands.errors_eq_nil {names : List String} {group : Group} {inner : List (String × Member)}
    (stands : Stands members names (.fieldset group inner))
    (fresh : refreshAll lookup scope hiddenAbove disabledAbove members = members)
    (valid : areValid members = true) (visible : group.hidden = false) : group.errors = [] := by
  generalize found : Member.fieldset group inner = member at stands
  induction stands generalizing scope hiddenAbove disabledAbove with
  | here inside =>
      have passed := areValid_iff.mp valid _ inside
      rw [← found, isValid, visible, Bool.false_or, Bool.and_eq_true] at passed
      exact List.isEmpty_iff.mp passed.1
  | @beneath _ _ _ outer _ inside below ih =>
      have passed := areValid_iff.mp valid _ inside
      have further := (flags_of_refresh_eq_self (refreshAll_eq_self_iff.mp fresh _ inside)).2.2
      cases outer with
      | field entry => exact absurd below Member.not_stands_nil
      | fieldset around members =>
          rw [isValid, Bool.or_eq_true] at passed
          rcases passed with isHidden | passed
          · -- The fieldset would be hidden with the one around it.
            rw [show (Member.fieldset around members).hidden = true from isHidden] at further
            have hidden := below.hidden further
            rw [← found] at hidden
            exact absurd (visible.symm.trans hidden) Bool.false_ne_true
          · exact ih further (Bool.and_eq_true_iff.mp passed).2 found

end Fresh

/-- No field fails in a group that is valid. -/
theorem failingAll_of_areValid {members : List (String × Member)} (valid : areValid members = true) (path : Path) :
    failingAll path members = [] := by
  induction members using groupInduction generalizing path with
  | step members ih =>
      rw [failingAll_eq, List.flatMap_eq_nil_iff]
      intro entry inside
      have passed := areValid_iff.mp valid entry inside
      have below := ih entry inside
      obtain ⟨name, member⟩ := entry
      cases member with
      | field entry =>
          rw [isValid, Bool.or_eq_true, Bool.not_eq_true'] at passed
          rw [failing, if_neg (by rcases passed with free | valid <;> simp_all)]
      | fieldset group members =>
          rw [isValid, Bool.or_eq_true, Bool.and_eq_true] at passed
          rw [failing]
          split
          · rfl
          · rename_i visible
            exact below (passed.resolve_left visible).2 _

end Member

/-! ## Forms -/

namespace Form

variable {form : Form} {path : Path}

variable (path form) in
/-- The fields of a form that fail, and none if the form is hidden. -/
def failing : List (Path × Field) := if form.group.hidden then [] else Member.failingAll path form.members

/-- The fields of a form that fail at rest are its operable fields that are invalid. -/
theorem failing_of_fresh {lookup : Lookup} (fresh : form.refresh lookup path = form) :
    form.failing path = (Member.operable path form.members).filter fun entry => !entry.2.isValid := by
  have members := (refresh_eq_self_iff.mp fresh).2
  unfold failing
  split
  · rename_i isHidden
    rw [isHidden] at members
    rw [Member.operable_of_hidden members, List.filter_nil]
  · exact Member.failingAll_of_fresh members path

theorem failing_of_isValid (valid : form.isValid = true) : form.failing path = [] := by
  rw [isValid, Bool.or_eq_true, Bool.and_eq_true] at valid
  unfold failing
  split
  · rfl
  · rename_i visible
    exact Member.failingAll_of_areValid (valid.resolve_left visible).2 path

/-- The failures of a form are the messages of its operable fields that are invalid. -/
theorem failures_eq_map : form.failures path =
    ((Member.operable path form.members).filter fun entry => !entry.2.isValid).map fun entry =>
      (entry.1, entry.2.check) := by
  rw [failures, Member.failures, ← List.filterMap_eq_map, List.filterMap_filter]
  refine List.filterMap_congr fun entry _ => ?_
  obtain ⟨place, field⟩ := entry
  dsimp only
  cases field.isValid <;> rfl

/-- No visible group of a form at rest shows messages if the form is valid. -/
theorem errors_eq_nil {lookup : Lookup} (fresh : form.refresh lookup path = form) (valid : form.isValid = true)
    {place : Path} {group : Group} (listed : (place, group) ∈ form.groups path) (visible : group.hidden = false) :
    group.errors = [] := by
  have members := (refresh_eq_self_iff.mp fresh).2
  rw [isValid, Bool.or_eq_true, Bool.and_eq_true] at valid
  rcases mem_groups_iff.mp listed with ⟨-, rfl⟩ | ⟨names, inner, -, stands⟩
  · rw [visible] at valid
    exact List.isEmpty_iff.mp (valid.resolve_left Bool.false_ne_true).1
  · rcases valid with isHidden | valid
    · rw [isHidden] at members
      exact absurd (visible.symm.trans (stands.hidden members)) Bool.false_ne_true
    · exact stands.errors_eq_nil members valid.2 visible

end Form

/-! ## Keys -/

namespace Node

/-- The segments that lead to a node of a regular tree are identifiers: names and indices. -/
theorem Stands.isIdentifier {node inner : Node} {segments : List String} (stands : node.Stands segments inner)
    (regular : node.Regular) : ∀ segment ∈ segments, Text.isIdentifier segment.toList = true := by
  have named {members : List (String × Node)} (regular : RegularMembers members) {name : String} {outer : Node}
      (inside : (name, outer) ∈ members) : Text.isIdentifier name.toList = true := by
    have isName := regular.named (name, outer) inside
    exact Path.isIdentifier_of_isMemberName isName
  induction stands with
  | here => exact nofun
  | member inside _ ih =>
      exact List.forall_mem_cons.mpr ⟨named regular.collection inside, ih (regular.collection.inner _ inside)⟩
  | sibling there inside _ ih =>
      have members := regular.series (List.mem_of_getElem? there)
      exact List.forall_mem_cons.mpr ⟨Path.isIdentifier_indexText _,
        List.forall_mem_cons.mpr ⟨named members inside, ih (members.inner _ inside)⟩⟩

theorem Stands.plain {node inner : Node} {segments : List String} (stands : node.Stands segments inner)
    (regular : node.Regular) : ∀ segment ∈ segments, Path.Plain segment := fun segment among =>
  Path.plain_of_isIdentifier (stands.isIdentifier regular segment among)

/-- A form that does not stand beneath a pristine sibling takes part in validation and submission. -/
theorem mem_liveForms {node : Node} (regular : node.Regular) {front : List String} {content : Form}
    (stands : node.Stands front (.form content)) (shown : ¬ node.Offered front) (path : Path) :
    (path.extend ⟨front⟩, content) ∈ node.forms true path := by
  generalize target : Node.form content = inner at stands
  induction stands generalizing path with
  | here =>
      subst target
      rw [show Path.mk [] = Path.root from rfl, Path.extend_root]
      exact List.mem_singleton_self _
  | @member frame progress members name outer inner segments inside _ ih =>
      rw [offered_member regular inside] at shown
      have beneath := ih (regular.collection.inner _ inside) shown (path.join name) target
      rw [Path.join_eq_extend, Path.extend_append] at beneath
      exact mem_liveForms_collection.mpr ⟨name, outer, inside, beneath⟩
  | @sibling frame template siblings index sibling name outer inner segments there inside _ ih =>
      have members := regular.series (List.mem_of_getElem? there)
      rw [offered_sibling regular there inside, not_or] at shown
      obtain ⟨pristine, entries⟩ := sibling
      obtain rfl : pristine = false := by simpa using shown.1
      have beneath := ih (members.inner _ inside) shown.2 ((path.join (indexText index)).join name) target
      have place : ((path.join (indexText index)).join name).extend ⟨segments⟩ =
          path.extend ⟨indexText index :: name :: segments⟩ := by
        rw [Path.join_join, Path.extend_append]
        rfl
      rw [place] at beneath
      exact mem_liveForms_series.mpr ⟨index, entries, name, outer, there, inside, beneath⟩

end Node

namespace Tree

variable {tree : Tree}

/-- The key of a field is read as the path of the field. -/
theorem path_key (regular : tree.root.Regular) {path : Path} {field : Field} (listed : (path, field) ∈ tree.fields) :
    tree.path (ValidationReport.key tree.here path) = path := by
  obtain ⟨front, form, names, rfl, stands, member⟩ := Node.mem_fields_iff.mp listed
  have members := (regular.stands stands).form
  have plain : ∀ segment ∈ front ++ names, Path.Plain segment := fun segment inside =>
    (List.mem_append.mp inside).elim (stands.plain regular segment) (member.plain members segment)
  rw [ValidationReport.key, Path.stripFront?_extend, Option.getD_some, Tree.path, Path.parse_text plain]

/-! ## The report -/

variable (tree) in
/-- The fields that fail in a validation of the whole tree. -/
def failing : List (Path × Field) :=
  (tree.root.forms true tree.here).flatMap fun entry =>
    if entry.2.isClosedDialog then [] else entry.2.failing entry.1

section AtRest

variable (rest : tree.AtRest)
include rest

/-- A form outside pristine siblings is fresh. -/
theorem AtRest.fresh {entry : Path × Form} (live : entry ∈ tree.root.forms true tree.here) :
    entry.2.refresh tree.lookup entry.1 = entry.2 :=
  (atRest_iff.mp rest).2.1 entry (((Node.liveNodes_sublist tree.here tree.root).filterMap _).subset live)

theorem AtRest.failing_eq : tree.failing = (tree.root.forms true tree.here).flatMap fun entry =>
    if entry.2.isClosedDialog then []
    else (Member.operable entry.1 entry.2.members).filter fun field => !field.2.isValid :=
  List.flatMap_congr fun entry live => by rw [Form.failing_of_fresh (rest.fresh live)]

theorem AtRest.failures_eq : tree.root.failures tree.here = tree.failing.map fun entry => (entry.1, entry.2.check) := by
  rw [rest.failing_eq, Node.failures, List.map_flatMap]
  refine List.flatMap_congr fun entry _ => ?_
  dsimp only
  split
  · rfl
  · exact Form.failures_eq_map

theorem AtRest.failing_sublist : tree.failing.Sublist tree.fields := by
  have live : (tree.root.forms true tree.here).Sublist tree.forms :=
    (Node.liveNodes_sublist tree.here tree.root).filterMap _
  rw [rest.failing_eq]
  refine (List.Sublist.flatMap_right _ fun entry _ => ?_).trans (live.flatMap _)
  split
  · exact List.nil_sublist _
  · exact List.filter_sublist.trans List.filter_sublist

end AtRest

/-- A path in a form leads into a closed dialog exactly if the form is that of one. -/
theorem inClosedDialog_iff (regular : tree.root.Regular) {place : Path} {form : Form}
    (isForm : (place, form) ∈ tree.forms) (names : Path) :
    tree.InClosedDialog (place.extend names) ↔ form.isClosedDialog = true := by
  constructor
  · rintro ⟨other, content, rest, isOther, closed, same⟩
    obtain ⟨front, rfl, stands⟩ := Node.mem_forms_iff.mp isForm
    obtain ⟨further, rfl, standsOther⟩ := Node.mem_forms_iff.mp isOther
    rw [Path.extend_assoc, Path.extend_assoc] at same
    have segments := congrArg Path.segments (Path.extend_injective same)
    obtain ⟨-, -, rfl⟩ := Node.stands_form_unique regular stands standsOther segments
    exact closed
  · exact fun closed => ⟨place, form, names, isForm, closed, rfl⟩

/-- The fields that fail are the visible and enabled data fields outside pristine siblings and closed dialogs that
do not pass their checks. -/
theorem mem_failing_iff (regular : tree.root.Regular) (rest : tree.AtRest) {path : Path} {field : Field} :
    (path, field) ∈ tree.failing ↔ (path, field) ∈ tree.fields ∧ field.hidden = false ∧ field.disabled = false ∧
      field.isButton = false ∧ ¬ tree.Offered path ∧ ¬ tree.InClosedDialog path ∧ field.check ≠ [] := by
  have parts : field.isOperable = true ∧ field.isValid = false ↔
      field.hidden = false ∧ field.disabled = false ∧ field.isButton = false ∧ field.check ≠ [] := by
    simp [Field.isOperable, Field.isValid, and_assoc]
  rw [rest.failing_eq, List.mem_flatMap]
  constructor
  · rintro ⟨⟨place, form⟩, live, inside⟩
    split at inside
    · cases inside
    · rename_i isOpen
      obtain ⟨inside, invalid⟩ := List.mem_filter.mp inside
      obtain ⟨inForm, operable⟩ := List.mem_filter.mp inside
      obtain ⟨visible, enabled, isData, fails⟩ := parts.mp ⟨operable, by simpa using invalid⟩
      have isSent : (path, field) ∈ tree.sent :=
        List.mem_flatMap.mpr ⟨_, live, List.mem_filter.mpr ⟨inForm, by simp [Field.isSent, enabled, isData]⟩⟩
      obtain ⟨listed, -, -, shown⟩ := (mem_sent_iff regular).mp isSent
      refine ⟨listed, visible, enabled, isData, shown, ?_, fails⟩
      obtain ⟨names, rfl, -⟩ := Form.mem_fields_iff.mp inForm
      have isForm : (place, form) ∈ tree.forms :=
        ((Node.liveNodes_sublist tree.here tree.root).filterMap _).subset live
      rwa [inClosedDialog_iff regular isForm]
  · rintro ⟨listed, visible, enabled, isData, shown, outside, fails⟩
    obtain ⟨entry, live, isOpen, inside⟩ := exists_validated_form regular listed isData enabled shown outside
    obtain ⟨operable, invalid⟩ := parts.mpr ⟨visible, enabled, isData, fails⟩
    refine ⟨entry, live, ?_⟩
    rw [isOpen, if_neg Bool.false_ne_true]
    exact List.mem_filter.mpr ⟨List.mem_filter.mpr ⟨inside, operable⟩, by simpa using invalid⟩

/-- A valid tree has nothing that fails. -/
theorem failing_of_isValid (valid : tree.isValid = true) : tree.failing = [] := by
  rw [isValid, Node.isValid_eq tree.here, List.all_eq_true] at valid
  refine List.flatMap_eq_nil_iff.mpr fun entry live => ?_
  split
  · rfl
  · rename_i isOpen
    exact Form.failing_of_isValid (((Bool.or_eq_true _ _).mp (valid entry live)).resolve_left isOpen)

/-- Where a valid tree at rest is visited, no form or fieldset shows messages. -/
theorem errors_eq_nil (regular : tree.root.Regular) (rest : tree.AtRest) (valid : tree.isValid = true) {path : Path}
    {group : Group} (listed : (path, group) ∈ tree.groups) (visible : group.hidden = false)
    (shown : ¬ tree.Offered path) (outside : ¬ tree.InClosedDialog path) : group.errors = [] := by
  obtain ⟨⟨place, form⟩, isForm, inside⟩ := List.mem_flatMap.mp listed
  obtain ⟨names, rfl⟩ := Form.exists_of_mem_groups inside
  rw [inClosedDialog_iff regular isForm] at outside
  obtain ⟨front, rfl, stands⟩ := Node.mem_forms_iff.mp isForm
  have live : (tree.here.extend ⟨front⟩, form) ∈ tree.root.forms true tree.here := by
    refine Node.mem_liveForms regular stands (fun offered => shown ?_) tree.here
    rw [Path.extend_assoc]
    exact offered_iff.mpr (offered.append names.segments)
  rw [isValid, Node.isValid_eq tree.here, List.all_eq_true] at valid
  have formValid : form.isValid = true := ((Bool.or_eq_true _ _).mp (valid _ live)).resolve_left outside
  exact Form.errors_eq_nil (rest.fresh live) formValid inside visible

section Report

variable (regular : tree.root.Regular) (rest : tree.AtRest)
include regular rest

/-- The key of a field that fails is read as its path. -/
theorem path_key_of_failing (entry : Path × Field) (inside : entry ∈ tree.failing) :
    tree.path (ValidationReport.key tree.here entry.1) = entry.1 :=
  path_key regular (rest.failing_sublist.subset inside)

/-- Fields that fail have different keys. -/
theorem nodup_keys_failing : (tree.failing.map fun entry => ValidationReport.key tree.here entry.1).Nodup := by
  have places : (tree.failing.map fun entry => ValidationReport.key tree.here entry.1).map tree.path =
      tree.failing.map Prod.fst := by
    rw [List.map_map]
    exact List.map_congr_left (path_key_of_failing regular rest)
  refine List.Nodup.of_map tree.path ?_
  rw [places]
  exact (Node.nodup_fields regular tree.here).sublist (rest.failing_sublist.map _)

/-- The report has one entry for each field that fails, with its messages under its key. -/
theorem report_validate : tree.validate.2 = ⟨if tree.failing = [] then 200 else 422,
    tree.failing.map fun entry => (ValidationReport.key tree.here entry.1, entry.2.check)⟩ := by
  have once := nodup_keys_failing regular rest
  rw [validate, rest.failures_eq, ValidationReport.ofFailures_of_nodup (by rwa [List.map_map])]
  simp only [List.map_eq_nil_iff, List.map_map]
  rfl

end Report

/-- A validation of the whole tree and the question whether it is valid agree, and messages that are recorded have no
part in what is answered. -/
structure Validates (tree : Tree) : Prop where
  /-- The report has one entry for each field that fails, with its messages under its key. -/
  report : tree.validate.2 = ⟨if tree.failing = [] then 200 else 422,
    tree.failing.map fun entry => (ValidationReport.key tree.here entry.1, entry.2.check)⟩
  keysOnce : (tree.failing.map fun entry => ValidationReport.key tree.here entry.1).Nodup
  /-- A key is the dotted text of what leads from the root to the field. -/
  keyPaths : ∀ entry ∈ tree.failing, tree.path (ValidationReport.key tree.here entry.1) = entry.1
  inOrder : tree.failing.Sublist tree.fields
  mem_failing_iff : ∀ path field, (path, field) ∈ tree.failing ↔ (path, field) ∈ tree.fields ∧
    field.hidden = false ∧ field.disabled = false ∧ field.isButton = false ∧ ¬ tree.Offered path ∧
      ¬ tree.InClosedDialog path ∧ field.check ≠ []
  /-- A valid tree has a valid report. -/
  passes : tree.isValid = true → tree.validate.2.isValid = true
  /-- After a valid report the tree is valid. -/
  isValid : tree.validate.2.isValid = true → tree.validate.1.isValid = true
  strayErrors : tree.validate.2.isValid = true → tree.validate.1.strayErrors = []
  /-- After a valid report no form or fieldset that was visited shows messages. -/
  errors : tree.validate.2.isValid = true → ∀ path group, (path, group) ∈ tree.validate.1.groups →
    group.hidden = false → ¬ tree.validate.1.Offered path → ¬ tree.validate.1.InClosedDialog path → group.errors = []
  /-- Nothing but messages and the outcomes of checks is changed. -/
  unchanged : tree.validate.1.clearErrors = tree.clearErrors
  /-- After messages of a server the report is the same, and so are the ends of submissions and steps. -/
  undisturbed : ∀ messages, DecidesAlike (tree.applyErrors messages) tree

theorem Reachable.validates (reachable : tree.Reachable) : tree.Validates := by
  have regular := reachable.regular
  have rest := reachable.atRest
  have report := report_validate regular rest
  have valid_iff : tree.validate.2.isValid = true ↔ tree.failing = [] := by
    rw [report, ValidationReport.isValid, List.isEmpty_iff, List.map_eq_nil_iff]
  have validated : tree.validate.1.Reachable := reachable.after .validate
  have isValid (passed : tree.validate.2.isValid = true) : tree.validate.1.isValid = true :=
    Node.isValid_validate (ValidationReport.isValid_ofFailures.mp passed) tree.here
  exact {
    report := report
    keysOnce := nodup_keys_failing regular rest
    keyPaths := path_key_of_failing regular rest
    inOrder := rest.failing_sublist
    mem_failing_iff := fun path field => Tree.mem_failing_iff regular rest
    passes := fun valid => valid_iff.mpr (failing_of_isValid valid)
    isValid := isValid
    strayErrors := fun passed => if_pos passed
    errors := fun passed path group listed visible shown outside =>
      errors_eq_nil validated.regular validated.atRest (isValid passed) listed visible shown outside
    unchanged := congrArg (fun root => ({ tree with root, strayErrors := [] } : Tree))
      (Node.clearErrors_validate tree.here tree.root)
    undisturbed := tree.decidesAlike_applyErrors }

/-- A booking can be validated after its name was refused by a server: what fails is missing. -/
theorem validates_booking : ∃ tree, Tree.mount booking none = .ok tree ∧
    tree.failing.map (fun entry => (entry.1, entry.2.check)) =
      [(⟨["booking", "name"]⟩, ["This field is required."]), (⟨["booking", "status"]⟩, ["This field is required."])] ∧
    (tree.after (.applyErrors [("booking.name", ["This name is taken."])])).Validates := by
  have fails : ((Tree.mount booking none).toOption.map fun tree =>
      tree.failing.map fun entry => (entry.1, entry.2.check)) =
      some [(⟨["booking", "name"]⟩, ["This field is required."]),
        (⟨["booking", "status"]⟩, ["This field is required."])] := by decide +kernel
  obtain ⟨tree, mounted, failing⟩ := Option.map_eq_some_iff.mp fails
  rw [toOption_eq_some] at mounted
  exact ⟨tree, mounted, failing, Reachable.validates (.after (.mounted mounted) _)⟩

end Tree

end Formwork
