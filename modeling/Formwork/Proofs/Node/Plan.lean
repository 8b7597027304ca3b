import Formwork.Proofs.Node.Branches
import Formwork.Proofs.Plan

/-!
# The plan of a node

A mounted node still shows the plan it was built from (`Node.plan`), and the siblings of a series
all show the plan of its template (`Node.Uniform`). Neither is changed by what happens to a tree:
a change of everything or along a path that keeps the plans of single forms and frames keeps
the plan of the node, and a sibling that is added is a copy of the template.
-/

set_option autoImplicit false

namespace Formwork

open Formwork.Text

mutual
/-- The plan that a node was built from; that of a series is found in its template. -/
def Node.plan : Node → NodePlan
  | .form content => content.plan
  | .collection frame none members => .collection frame.plan (Node.plans members)
  | .collection frame (some _) members => .stepper frame.plan (Node.plans members)
  | .series frame template _ => .collection frame.plan (Node.plans template)

/-- The plans of the nodes of a list. -/
def Node.plans : List (String × Node) → List (String × NodePlan)
  | [] => []
  | (name, node) :: rest => (name, node.plan) :: Node.plans rest
end

/-- Every sibling of a series has the plan of the template. -/
inductive Node.Uniform : Node → Prop where
  | form (content : Form) : Uniform (.form content)
  | collection {frame : Frame} {progress : Option Progress} {members : List (String × Node)}
      (inner : ∀ entry ∈ members, Uniform entry.2) : Uniform (.collection frame progress members)
  | series {frame : Frame} {template : List (String × Node)} {siblings : List Sibling}
      (inTemplate : ∀ entry ∈ template, Uniform entry.2)
      (alike : ∀ sibling ∈ siblings, Node.plans sibling.members = Node.plans template)
      (inner : ∀ sibling ∈ siblings, ∀ entry ∈ sibling.members, Uniform entry.2) :
      Uniform (.series frame template siblings)

theorem Node.plans_eq (members : List (String × Node)) :
    plans members = members.map fun entry => (entry.1, entry.2.plan) := by
  induction members with
  | nil => rfl
  | cons entry rest ih => simp only [plans, ih, List.map_cons]

/-! ## What keeps the plan -/

theorem mem_of_mem_modify {α : Type} {items : List α} {position : Nat} {change : α → α} {item : α}
    (inside : item ∈ items.modify position change) :
    item ∈ items ∨ ∃ old ∈ items, item = change old := by
  obtain ⟨index, stands⟩ := List.mem_iff_getElem?.mp inside
  rw [List.getElem?_modify, Option.map_eq_map, Option.map_eq_some_iff] at stands
  obtain ⟨old, found, same⟩ := stands
  split at same
  · exact .inr ⟨old, List.mem_of_getElem? found, same.symm⟩
  · exact .inl (same ▸ List.mem_of_getElem? found)

/-- What a change of one item does not affect is the same afterwards. -/
theorem map_modify_eq {α β : Type} {items : List α} {change : α → α} {image : α → β}
    (same : ∀ item ∈ items, image (change item) = image item) (position : Nat) :
    (items.modify position change).map image = items.map image := by
  refine List.ext_getElem? ?_
  intro index
  rw [List.getElem?_map, List.getElem?_map, List.getElem?_modify]
  cases found : items[index]? with
  | none => rfl
  | some item =>
      by_cases here : position = index
      · simp [here, same item (List.mem_of_getElem? found)]
      · simp [here]

/-- A change of an item that goes with a change of every item may be made afterwards. -/
theorem map_modify_comm {α β : Type} {items : List α} {change : α → α} {edit : β → β} {image : α → β}
    (agree : ∀ item ∈ items, image (change item) = edit (image item)) (position : Nat) :
    (items.modify position change).map image = (items.map image).modify position edit := by
  refine List.ext_getElem? fun index => ?_
  rw [List.getElem?_map, List.getElem?_modify, List.getElem?_modify, List.getElem?_map]
  cases found : items[index]? with
  | none => rfl
  | some item =>
      by_cases here : position = index
      · simp [here, agree item (List.mem_of_getElem? found)]
      · simp [here]

namespace Node

/-- A change along a path keeps the marks of siblings. -/
theorem isPristine_alongSiblings (change : List String → Node → Node) (segments : List String) (position : Nat)
    (siblings : List Sibling) :
    (alongSiblings change segments position siblings).map Sibling.isPristine =
      siblings.map Sibling.isPristine := by
  rw [alongSiblings_eq]
  exact map_modify_eq (fun sibling _ => Sibling.isPristine_mk _ _) position

/-- The plan of a collection depends on the plans of its members alone. -/
theorem plan_collection_congr {frame other : Frame} {progress changed : Option Progress}
    {members others : List (String × Node)} (sameFrame : frame.plan = other.plan)
    (sameKind : progress.isSome = changed.isSome) (sameMembers : plans members = plans others) :
    (Node.collection frame progress members).plan = (Node.collection other changed others).plan := by
  cases progress <;> cases changed <;> simp_all [plan]

section Map

variable {onForm : Path → Form → Form} {onFrame : Path → Frame → Frame}
variable (keepsForm : ∀ path content, (onForm path content).plan = content.plan)
variable (keepsFrame : ∀ path frame, (onFrame path frame).plan = frame.plan)
include keepsForm keepsFrame

theorem plan_map (liveOnly : Bool) (path : Path) (node : Node) :
    (node.map liveOnly onForm onFrame path).plan = node.plan := by
  induction node using Node.induction generalizing path with
  | form content => simp only [map, plan, keepsForm]
  | collection frame progress members ih =>
      refine plan_collection_congr (keepsFrame _ _) rfl ?_
      rw [mapMembers_eq, plans_eq, plans_eq, List.map_map]
      exact List.map_congr_left fun entry inside => by simp [ih entry inside]
  | series frame template siblings _ _ => simp only [map, plan, keepsFrame]

theorem uniform_map (liveOnly : Bool) (path : Path) {node : Node} (uniform : node.Uniform) :
    (node.map liveOnly onForm onFrame path).Uniform := by
  induction uniform generalizing path with
  | form content => exact .form _
  | collection inner ih =>
      refine .collection ?_
      intro entry inside
      rw [mapMembers_eq] at inside
      obtain ⟨old, there, rfl⟩ := List.mem_map.mp inside
      exact ih old there _
  | series inTemplate alike inner _ ih =>
      refine .series inTemplate (fun sibling inside => ?_) fun sibling inside => ?_
      all_goals
        rw [mapSiblings_eq] at inside
        obtain ⟨old, there, rfl⟩ := List.mem_map.mp inside
        have stands := List.fst_mem_of_mem_zipIdx there
        simp only [Sibling.members_mk]
      · split
        · exact alike _ stands
        · rw [← alike _ stands, mapMembers_eq, plans_eq, plans_eq, List.map_map]
          exact List.map_congr_left fun entry _ => by
            simp [plan_map keepsForm keepsFrame liveOnly]
      · split
        · exact inner _ stands
        · intro entry inside
          rw [mapMembers_eq] at inside
          obtain ⟨member, memberInside, rfl⟩ := List.mem_map.mp inside
          exact ih _ stands member memberInside _

end Map

section Along

variable {change : List String → Node → Node}
variable (keeps : ∀ segments node, (change segments node).plan = node.plan)
include keeps

theorem plan_along (segments : List String) (node : Node) :
    (node.along change segments).plan = node.plan := by
  induction node using Node.induction generalizing segments with
  | form content => rw [along, keeps]
  | collection frame progress members ih =>
      rw [along, keeps]
      refine plan_collection_congr rfl rfl ?_
      rw [alongMembers_eq]
      cases segments with
      | nil => rfl
      | cons first rest =>
          rw [plans_eq, plans_eq]
          exact Assoc.map_modify (fun entry inside => by simp [ih entry inside]) first
  | series frame template siblings _ _ =>
      cases segments with
      | nil => rw [along, keeps]
      | cons _ _ => rw [along, keeps]; rfl

theorem plans_alongMembers (segments : List String) (members : List (String × Node)) :
    plans (alongMembers change segments members) = plans members := by
  rw [alongMembers_eq]
  cases segments with
  | nil => rfl
  | cons first rest =>
      rw [plans_eq, plans_eq]
      exact Assoc.map_modify (fun entry _ => by simp [plan_along keeps]) first

theorem uniform_along
    (keepsUniform : ∀ segments (node : Node), node.Uniform → (change segments node).Uniform)
    (segments : List String) {node : Node} (uniform : node.Uniform) :
    (node.along change segments).Uniform := by
  have members {entries : List (String × Node)} {rest : List String}
      (inner : ∀ entry ∈ entries, entry.2.Uniform)
      (ih : ∀ entry ∈ entries, ∀ segments, (entry.2.along change segments).Uniform) :
      ∀ entry ∈ alongMembers change rest entries, entry.2.Uniform := by
    rw [alongMembers_eq]
    cases rest with
    | nil => exact inner
    | cons first rest =>
        intro entry inside
        rcases Assoc.mem_modify inside with old | ⟨value, there, rfl⟩
        · exact inner entry old
        · exact ih (first, value) there rest
  induction uniform generalizing segments with
  | form content => exact keepsUniform _ _ (.form content)
  | collection inner ih =>
      rw [along]
      exact keepsUniform _ _ (.collection (members inner fun entry inside segments =>
        ih entry inside segments))
  | @series frame template siblings inTemplate alike inner _ ih =>
      have changed {rest : List String} {position : Nat} :
          (Node.series frame template (alongSiblings change rest position siblings)).Uniform := by
        have cases {sibling : Sibling}
            (inside : sibling ∈ alongSiblings change rest position siblings) :
            sibling ∈ siblings ∨ ∃ old ∈ siblings, sibling =
              .mk old.isPristine (alongMembers change rest old.members) := by
          rw [alongSiblings_eq] at inside
          exact mem_of_mem_modify inside
        refine .series inTemplate ?_ ?_
        · intro sibling inside
          rcases cases inside with old | ⟨old, there, rfl⟩
          · exact alike sibling old
          · exact (plans_alongMembers keeps rest old.members).trans (alike old there)
        · intro sibling inside
          rcases cases inside with old | ⟨old, there, rfl⟩
          · exact inner sibling old
          · exact members (inner old there) fun entry inside segments =>
              ih old there entry inside segments
      cases segments with
      | nil => exact keepsUniform _ _ (.series inTemplate alike inner)
      | cons index rest =>
          rw [along]
          cases read : canonicalIndex? index with
          | none => simpa only [read] using keepsUniform _ _ (.series inTemplate alike inner)
          | some position => simpa only [read] using keepsUniform _ _ changed

end Along

end Node

end Formwork
