import Formwork.Node.Mounting
import Formwork.Node.Stepping

/-!
# Recursion over members and nodes

Every function on the members of a form, and every function on the nodes of a tree, comes with
companions that carry it through a list of members or of siblings. Here the companions are
rewritten into the operators on lists, and two principles of induction are stated that speak of
all members of a list at once (`Member.induction`, `Node.induction`). A fact about a whole tree is
then one induction with one case for each constructor, and the lists in it are left to the laws
of `List.map`, `List.flatMap` and `Assoc`.
-/

set_option autoImplicit false

namespace Formwork

open Formwork.Text

/-! ## Members -/

namespace Member

mutual
/-- Induction over members; a fieldset may use the statement for all its members. -/
@[elab_as_elim]
theorem induction {motive : Member → Prop} (field : ∀ entry, motive (.field entry))
    (fieldset : ∀ group members, (∀ entry ∈ members, motive entry.2) →
      motive (.fieldset group members)) : ∀ member, motive member
  | .field entry => field entry
  | .fieldset group members => fieldset group members (inductionAll field fieldset members)

/-- `induction` for every member of a list. -/
theorem inductionAll {motive : Member → Prop} (field : ∀ entry, motive (.field entry))
    (fieldset : ∀ group members, (∀ entry ∈ members, motive entry.2) →
      motive (.fieldset group members)) :
    ∀ members : List (String × Member), ∀ entry ∈ members, motive entry.2
  | [], _, inside => by cases inside
  | (_, member) :: rest, entry, inside => by
      rcases List.mem_cons.mp inside with rfl | inside
      · exact induction field fieldset member
      · exact inductionAll field fieldset rest entry inside
end

theorem itemsAll_eq (path : Path) (members : List (String × Member)) :
    itemsAll path members = members.flatMap fun entry => entry.2.items (path.join entry.1) := by
  induction members with
  | nil => rfl
  | cons entry rest ih => simp only [itemsAll, ih, List.flatMap_cons]

theorem find?_eq (name : String) (names : List String) (members : List (String × Member)) :
    find? name names members = (Assoc.get? name members).bind (get? names) := by
  induction members with
  | nil => rfl
  | cons entry rest ih =>
      obtain ⟨other, member⟩ := entry
      by_cases same : other = name
      · simp [find?, Assoc.get?, same]
      · simp [find?, Assoc.get?, same, ih]

theorem modifyAt_eq (change : Member → Member) (name : String) (names : List String)
    (members : List (String × Member)) :
    modifyAt change name names members = Assoc.modify name (modify change names) members := by
  induction members with
  | nil => rfl
  | cons entry rest ih =>
      obtain ⟨other, member⟩ := entry
      simp only [modifyAt, Assoc.modify, ih]

theorem mapAll_eq (onField : Field → Field) (onGroup : Group → Group)
    (members : List (String × Member)) :
    mapAll onField onGroup members =
      members.map fun entry => (entry.1, entry.2.map onField onGroup) := by
  induction members with
  | nil => rfl
  | cons entry rest ih => simp only [mapAll, ih, List.map_cons]

theorem refreshAll_eq (lookup : Lookup) (scope : Path) (hiddenAbove disabledAbove : Bool)
    (members : List (String × Member)) :
    refreshAll lookup scope hiddenAbove disabledAbove members =
      members.map fun entry =>
        (entry.1, entry.2.refresh lookup scope (scope.join entry.1) hiddenAbove disabledAbove) := by
  induction members with
  | nil => rfl
  | cons entry rest ih => simp only [refreshAll, ih, List.map_cons]

theorem validateAll_eq (path : Path) (members : List (String × Member)) :
    validateAll path members =
      members.map fun entry => (entry.1, entry.2.validate (path.join entry.1)) := by
  induction members with
  | nil => rfl
  | cons entry rest ih => simp only [validateAll, ih, List.map_cons]

theorem fillAll_eq (initial : Option Json) (members : List (String × Member)) :
    fillAll initial members =
      members.map fun entry => (entry.1, entry.2.fill (initial.bind (Json.field? entry.1))) := by
  induction members with
  | nil => rfl
  | cons entry rest ih => simp only [fillAll, ih, List.map_cons]

end Member

/-! ## Nodes -/

@[simp]
theorem Sibling.isPristine_mk (pristine : Bool) (members : List (String × Node)) :
    (Sibling.mk pristine members).isPristine = pristine := rfl

@[simp]
theorem Sibling.members_mk (pristine : Bool) (members : List (String × Node)) :
    (Sibling.mk pristine members).members = members := rfl

namespace Node

mutual
/-- Induction over nodes; a collection may use the statement for all its members, and a series for
those of its template and of all its siblings. -/
@[elab_as_elim]
theorem induction {motive : Node → Prop} (form : ∀ content, motive (.form content))
    (collection : ∀ frame progress members, (∀ entry ∈ members, motive entry.2) →
      motive (.collection frame progress members))
    (series : ∀ frame template siblings, (∀ entry ∈ template, motive entry.2) →
      (∀ sibling ∈ siblings, ∀ entry ∈ Sibling.members sibling, motive entry.2) →
      motive (.series frame template siblings)) : ∀ node, motive node
  | .form content => form content
  | .collection frame progress members =>
      collection frame progress members (inductionMembers form collection series members)
  | .series frame template siblings =>
      series frame template siblings (inductionMembers form collection series template)
        (inductionSiblings form collection series siblings)

/-- `induction` for every node of a list of members. -/
theorem inductionMembers {motive : Node → Prop} (form : ∀ content, motive (.form content))
    (collection : ∀ frame progress members, (∀ entry ∈ members, motive entry.2) →
      motive (.collection frame progress members))
    (series : ∀ frame template siblings, (∀ entry ∈ template, motive entry.2) →
      (∀ sibling ∈ siblings, ∀ entry ∈ Sibling.members sibling, motive entry.2) →
      motive (.series frame template siblings)) :
    ∀ members : List (String × Node), ∀ entry ∈ members, motive entry.2
  | [], _, inside => by cases inside
  | (_, node) :: rest, entry, inside => by
      rcases List.mem_cons.mp inside with rfl | inside
      · exact induction form collection series node
      · exact inductionMembers form collection series rest entry inside

/-- `induction` for every node of a list of siblings. -/
theorem inductionSiblings {motive : Node → Prop} (form : ∀ content, motive (.form content))
    (collection : ∀ frame progress members, (∀ entry ∈ members, motive entry.2) →
      motive (.collection frame progress members))
    (series : ∀ frame template siblings, (∀ entry ∈ template, motive entry.2) →
      (∀ sibling ∈ siblings, ∀ entry ∈ Sibling.members sibling, motive entry.2) →
      motive (.series frame template siblings)) :
    ∀ siblings : List Sibling, ∀ sibling ∈ siblings, ∀ entry ∈ Sibling.members sibling,
      motive entry.2
  | [], _, inside => by cases inside
  | .mk _ members :: rest, sibling, inside => by
      rcases List.mem_cons.mp inside with rfl | inside
      · exact inductionMembers form collection series members
      · exact inductionSiblings form collection series rest sibling inside
end

theorem memberNodes_eq (liveOnly : Bool) (path : Path) (members : List (String × Node)) :
    memberNodes liveOnly path members =
      members.flatMap fun entry => entry.2.nodes liveOnly (path.join entry.1) := by
  induction members with
  | nil => rfl
  | cons entry rest ih => simp only [memberNodes, ih, List.flatMap_cons]

theorem siblingNodes_eq (liveOnly : Bool) (path : Path) (index : Nat) (siblings : List Sibling) :
    siblingNodes liveOnly path index siblings =
      (siblings.zipIdx index).flatMap fun entry =>
        if liveOnly && entry.1.isPristine then []
        else memberNodes liveOnly (path.join (indexText entry.2)) entry.1.members := by
  induction siblings generalizing index with
  | nil => rfl
  | cons sibling rest ih =>
      obtain ⟨pristine, members⟩ := sibling
      rw [siblingNodes, ih, List.zipIdx_cons, List.flatMap_cons]
      rfl

theorem mapMembers_eq (liveOnly : Bool) (onForm : Path → Form → Form)
    (onFrame : Path → Frame → Frame) (path : Path) (members : List (String × Node)) :
    mapMembers liveOnly onForm onFrame path members =
      members.map fun entry =>
        (entry.1, entry.2.map liveOnly onForm onFrame (path.join entry.1)) := by
  induction members with
  | nil => rfl
  | cons entry rest ih => simp only [mapMembers, ih, List.map_cons]

theorem mapSiblings_eq (liveOnly : Bool) (onForm : Path → Form → Form)
    (onFrame : Path → Frame → Frame) (path : Path) (index : Nat) (siblings : List Sibling) :
    mapSiblings liveOnly onForm onFrame path index siblings =
      (siblings.zipIdx index).map fun entry =>
        .mk entry.1.isPristine
          (if liveOnly && entry.1.isPristine then entry.1.members
          else mapMembers liveOnly onForm onFrame (path.join (indexText entry.2))
            entry.1.members) := by
  induction siblings generalizing index with
  | nil => rfl
  | cons sibling rest ih =>
      obtain ⟨pristine, members⟩ := sibling
      rw [mapSiblings, ih, List.zipIdx_cons, List.map_cons]
      rfl

theorem memberLineage_eq (segments : List String) (members : List (String × Node)) :
    memberLineage segments members =
      match segments with
      | [] => []
      | first :: rest =>
        match Assoc.get? first members with
        | some node => node.lineage rest
        | none => [] := by
  induction members with
  | nil => cases segments <;> rfl
  | cons entry others ih =>
      obtain ⟨name, node⟩ := entry
      cases segments with
      | nil => rfl
      | cons first rest =>
          by_cases same : name = first
          · simp [memberLineage, Assoc.get?, same]
          · simp [memberLineage, Assoc.get?, same, Ne.symm same, ih]

theorem siblingLineage_eq (segments : List String) (index : Nat) (siblings : List Sibling) :
    siblingLineage segments index siblings =
      match siblings[index]? with
      | some sibling => memberLineage segments sibling.members
      | none => [] := by
  induction siblings generalizing index with
  | nil => cases index <;> rfl
  | cons sibling rest ih =>
      obtain ⟨pristine, members⟩ := sibling
      cases index with
      | zero => rfl
      | succ index => simp [siblingLineage, ih]

theorem alongMembers_eq (change : List String → Node → Node) (segments : List String)
    (members : List (String × Node)) :
    alongMembers change segments members =
      match segments with
      | [] => members
      | first :: rest => Assoc.modify first (along change rest) members := by
  induction members with
  | nil => cases segments <;> rfl
  | cons entry others ih =>
      obtain ⟨name, node⟩ := entry
      cases segments with
      | nil => rfl
      | cons first rest =>
          by_cases same : name = first
          · simp [alongMembers, Assoc.modify, same]
          · simp [alongMembers, Assoc.modify, same, Ne.symm same, ih]

theorem alongSiblings_eq (change : List String → Node → Node) (segments : List String)
    (index : Nat) (siblings : List Sibling) :
    alongSiblings change segments index siblings =
      siblings.modify index fun sibling =>
        .mk sibling.isPristine (alongMembers change segments sibling.members) := by
  induction siblings generalizing index with
  | nil => cases index <;> rfl
  | cons sibling rest ih =>
      obtain ⟨pristine, members⟩ := sibling
      cases index with
      | zero => rfl
      | succ index => simp [alongSiblings, ih]

theorem fillMembers_eq (initial : Option Json) (members : List (String × Node)) :
    fillMembers initial members =
      members.map fun entry => (entry.1, entry.2.fill (initial.bind (Json.field? entry.1))) := by
  induction members with
  | nil => rfl
  | cons entry rest ih => simp only [fillMembers, ih, List.map_cons]

theorem markPrefilledAll_eq (members : List (String × Node)) :
    markPrefilledAll members = members.map fun entry => (entry.1, entry.2.markPrefilled) := by
  induction members with
  | nil => rfl
  | cons entry rest ih => simp only [markPrefilledAll, ih, List.map_cons]

end Node

end Formwork
