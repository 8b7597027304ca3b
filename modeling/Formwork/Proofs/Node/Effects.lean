import Formwork.Proofs.Node.Places

/-!
# What a change along a path does

A change along some segments that only concerns forms changes the form on the way and no other one
(`Node.forms_modifyForm`). So a change of the field at some segments changes this one entry of the
enumeration of all fields and leaves the groups alone (`Node.fields_modifyField`,
`Node.groups_modifyField`), and a change of a group changes one entry of that of the groups and leaves the
fields alone (`Node.groups_modifyGroup`, `Node.fields_modifyGroup`). A change that leaves the field as it is
changes nothing at all (`Node.modifyField_eq_self`).
-/

set_option autoImplicit false

namespace Formwork

/-- A change of the member at some names that leaves it as it is changes nothing. -/
theorem Member.modify_eq_self {change : Member → Member} {names : List String} {member : Member}
    (same : ∀ inner, member.get? names = some inner → change inner = inner) : member.modify change names = member := by
  induction member using Member.induction generalizing names with
  | field entry =>
      cases names with
      | nil => exact same _ rfl
      | cons name rest => rfl
  | fieldset group members ih =>
      cases names with
      | nil => exact same _ rfl
      | cons name rest =>
          rw [modify, modifyAt_eq, Assoc.modify_eq_self_of_get? fun inner found => ?_]
          refine ih (name, inner) (Assoc.mem_of_get?_eq_some found) fun other there => same other ?_
          rw [get?, find?_eq, found]
          exact there

/-- A change of the field at some names that leaves it as it is changes nothing. -/
theorem Form.modifyField_eq_self {change : Field → Field} {names : List String} {form : Form}
    (same : ∀ field, form.field? names = some field → change field = field) : form.modifyField change names = form := by
  cases names with
  | nil => rfl
  | cons name rest =>
      rw [modifyField, Member.modifyAt_eq, Assoc.modify_eq_self_of_get? fun member found => ?_]
      refine Member.modify_eq_self fun inner there => ?_
      cases inner with
      | fieldset group members => rfl
      | field entry =>
          refine congrArg Member.field (same entry ?_)
          have lookup : Member.find? name rest form.members = some (.field entry) := by
            rw [Member.find?_eq, found]
            exact there
          rw [field?, lookup]

namespace Node

/-- A form on the way along some segments is the one that they lead into. -/
theorem formAt?_of_mem_lineage {segments names : List String} {node : Node} {content : Form}
    (among : (names, Node.form content) ∈ node.lineage segments) : node.formAt? segments = some (names, content) := by
  induction node using branchInduction generalizing segments with
  | step node ih =>
      cases isForm : node.form? with
      | some own =>
          obtain rfl := form?_eq_some_iff.mp isForm
          cases List.mem_singleton.mp among
          rfl
      | none =>
          rw [formAt?_eq isForm]
          rw [lineage_eq, List.mem_cons] at among
          rcases among with same | among
          · cases same
            cases isForm
          · cases next : node.next? segments with
            | none =>
                rw [next] at among
                cases among
            | some branch =>
                rw [next] at among
                obtain ⟨outer, inside, same⟩ := List.exists_of_findSome?_eq_some next
                split at same
                · cases same
                  exact ih outer inside among
                · cases same

/-- A change of the field at some segments that leaves it as it is changes nothing. -/
theorem modifyField_eq_self {change : Field → Field} {segments : List String} {node : Node}
    (same : ∀ field, node.field? segments = some field → change field = field) :
    node.modifyField change segments = node := by
  refine along_eq_self fun entry among => ?_
  obtain ⟨names, inner⟩ := entry
  cases inner with
  | collection frame progress members => rfl
  | series frame template siblings => rfl
  | form content =>
      refine congrArg Node.form (Form.modifyField_eq_self fun field found => same field ?_)
      rw [field?, formAt?_of_mem_lineage among]
      exact found

/-- The form at a path after a change along the way to another path. -/
def edited (change : List String → Form → Form) (target : Path) (entry : Path × Form) : Path × Form :=
  (entry.1,
    match target.stripFront? entry.1 with
    | some names => change names.segments entry.2
    | none => entry.2)

/-- What a change along a path does to a form that lies in front of the rest of the path. -/
theorem edited_of_extend {change : List String → Form → Form} {target path : Path} {content : Form}
    {names : List String} (same : target = path.extend ⟨names⟩) :
    edited change target (path, content) = (path, change names content) := by
  rw [edited, same, Path.stripFront?_extend]

/-- A change along a path leaves a form alone that is not on the way. -/
theorem edited_of_apart {change : List String → Form → Form} {target : Path} {entry : Path × Form}
    (apart : ∀ names, target ≠ entry.1.extend names) : edited change target entry = entry := by
  unfold edited
  split
  · rename_i names found
    exact absurd (Path.stripFront?_eq_some_iff.mp found) (apart names)
  · rfl

variable {node : Node} (regular : node.Regular)
include regular

/-- A change of the form on the way along some segments changes this form only. -/
theorem forms_modifyForm (change : List String → Form → Form) (path : Path) (segments : List String) :
    (node.modifyForm change segments).forms false path =
      (node.forms false path).map (edited change (path.extend ⟨segments⟩)) := by
  induction node using branchInduction generalizing path segments with
  | step node ih =>
      cases isForm : node.form? with
      | some content =>
          obtain rfl : node = .form content := by
            cases node <;> simp_all [form?]
          rw [modifyForm, along, forms_form, forms_form, List.map_singleton, edited_of_extend rfl]
      | none =>
          have stillNoForm : (node.modifyForm change segments).form? = none := by
            cases node with
            | form content => simp [form?] at isForm
            | collection frame progress members => rfl
            | series frame template siblings => rfl
          have branches : (node.modifyForm change segments).branches = node.branches.map fun branch =>
              (branch.1,
                if branch.1.isPrefixOf segments then
                  branch.2.modifyForm change (segments.drop branch.1.length)
                else branch.2) := by
            refine branches_along (fun inner => ?_) regular.nodup_fronts
            cases inner <;> rfl
          rw [forms_eq stillNoForm, forms_eq isForm, branches, List.flatMap_map, List.map_flatMap]
          refine List.flatMap_congr ?_
          intro branch inside
          dsimp only
          split
          · rename_i isFront
            obtain ⟨rest, rfl⟩ := List.isPrefixOf_iff_prefix.mp isFront
            rw [List.drop_left, ih branch inside (regular.branch inside), Path.extend_append]
          · rename_i apart
            symm
            refine (List.map_congr_left fun entry listed => ?_).trans (List.map_id _)
            obtain ⟨front, place, -⟩ := mem_forms_iff.mp listed
            refine edited_of_apart fun names same => apart (List.isPrefixOf_iff_prefix.mpr ?_)
            rw [place, Path.extend_append, Path.extend_append] at same
            refine ⟨front ++ names.segments, ?_⟩
            exact (congrArg Path.segments (Path.extend_injective same)).symm

/-- A change along a path of what is listed of all forms is a change of this one entry if it is one in each form on the
way. -/
theorem flatMap_modifyForm_eq {α : Type} {list : Path → Form → List (Path × α)}
    {change : List String → Form → Form} {edit : α → α}
    (beneath : ∀ place content, ∀ entry ∈ list place content, ∃ names, entry.1 = place.extend names)
    (changes : ∀ place names content, Member.Regular content.members → list place (change names content) =
      (list place content).map fun entry => (entry.1, if entry.1 = place.extend ⟨names⟩ then edit entry.2 else entry.2))
    (path : Path) (segments : List String) :
    ((node.modifyForm change segments).forms false path).flatMap (fun entry => list entry.1 entry.2) =
      ((node.forms false path).flatMap fun entry => list entry.1 entry.2).map fun entry =>
        (entry.1, if entry.1 = path.extend ⟨segments⟩ then edit entry.2 else entry.2) := by
  rw [forms_modifyForm regular, List.flatMap_map, List.map_flatMap]
  refine List.flatMap_congr ?_
  intro entry listed
  obtain ⟨place, content⟩ := entry
  obtain ⟨front, -, stands⟩ := mem_forms_iff.mp listed
  by_cases onTheWay : ∃ names, path.extend ⟨segments⟩ = place.extend ⟨names⟩
  · obtain ⟨names, same⟩ := onTheWay
    rw [edited_of_extend same, same]
    exact changes place names content (regular.stands stands).form
  · rw [edited_of_apart fun names same => onTheWay ⟨_, same⟩]
    symm
    refine (List.map_congr_left fun inner there => ?_).trans (List.map_id _)
    obtain ⟨names, same⟩ := beneath place content inner there
    rw [if_neg fun target => onTheWay ⟨names.segments, target.symm.trans same⟩]
    rfl

/-- The fields after a change of the field at some segments. -/
theorem fields_modifyField (change : Field → Field) (path : Path) (segments : List String) :
    (node.modifyField change segments).fields path = (node.fields path).map fun entry =>
      (entry.1, if entry.1 = path.extend ⟨segments⟩ then change entry.2 else entry.2) := by
  refine flatMap_modifyForm_eq regular (fun place content entry there => ?_)
    (fun place names content members => Form.fields_modifyField members change place names) path segments
  obtain ⟨names, same, -⟩ := Form.mem_fields_iff.mp there
  exact ⟨_, same⟩

/-- The groups after a change of the group at some segments. -/
theorem groups_modifyGroup (change : Group → Group) (path : Path) (segments : List String) :
    (node.modifyGroup change segments).groups path = (node.groups path).map fun entry =>
      (entry.1, if entry.1 = path.extend ⟨segments⟩ then change entry.2 else entry.2) := by
  refine flatMap_modifyForm_eq regular (fun place content entry there => ?_)
    (fun place names content members => Form.groups_modifyGroup members change place names) path segments
  exact Form.exists_of_mem_groups there

/-- A change of the form on the way leaves a view of all forms as it is if it leaves the view of each of
them. -/
theorem flatMap_modifyForm {α : Type} {list : Path → Form → List (Path × α)}
    {change : List String → Form → Form}
    (keeps : ∀ place names content, Member.Regular content.members →
      list place (change names content) = list place content)
    (path : Path) (segments : List String) :
    ((node.modifyForm change segments).forms false path).flatMap (fun entry => list entry.1 entry.2) =
      (node.forms false path).flatMap fun entry => list entry.1 entry.2 := by
  rw [forms_modifyForm regular, List.flatMap_map]
  refine List.flatMap_congr ?_
  intro entry listed
  obtain ⟨front, -, stands⟩ := mem_forms_iff.mp listed
  unfold edited
  dsimp only
  split
  · exact keeps _ _ _ (regular.stands stands).form
  · rfl

/-- A change of a field leaves all groups as they are. -/
theorem groups_modifyField (change : Field → Field) (path : Path) (segments : List String) :
    (node.modifyField change segments).groups path = node.groups path :=
  flatMap_modifyForm regular
    (fun place names _ members => Form.groups_modifyField members change place names) path segments

/-- A change of a group leaves all fields as they are. -/
theorem fields_modifyGroup (change : Group → Group) (path : Path) (segments : List String) :
    (node.modifyGroup change segments).fields path = node.fields path :=
  flatMap_modifyForm regular
    (fun place names _ members => Form.fields_modifyGroup members change place names) path segments

end Node

end Formwork
