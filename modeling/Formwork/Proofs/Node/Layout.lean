import Mathlib.Data.List.InsertIdx
import Formwork.Layout
import Formwork.Proofs.Node.Plan

/-!
# What nodes remember of their paths

An element that is moved to a path remembers what it would remember had it been built there
(`Node.rebase_layout`). So a sibling that is added by moving a copy of the template, and the siblings that
are renumbered behind it, remember the paths of a series that was built with all of them
(`Node.layout_insertIdx`), and the same holds of a sibling that is removed (`Node.layout_eraseIdx`).
What changes neither the names nor the number of elements leaves the remembered paths alone
(`Node.layout_map`, `Node.layout_along`).
-/

set_option autoImplicit false

namespace Formwork

open Formwork.Text

/-! ## Recursion over members and siblings -/

theorem Member.layoutAll_eq (path : Path) (members : List (String × Member)) :
    layoutAll path members = members.map fun entry => (entry.1, entry.2.layout (path.join entry.1)) := by
  induction members with
  | nil => rfl
  | cons entry rest ih => simp only [layoutAll, ih, List.map_cons]

theorem Node.layoutMembers_eq (path : Path) (members : List (String × Node)) :
    layoutMembers path members =
      members.map fun entry => (entry.1, entry.2.layout (path.join entry.1)) := by
  induction members with
  | nil => rfl
  | cons entry rest ih => simp only [layoutMembers, ih, List.map_cons]

theorem Node.layoutSiblings_eq (path : Path) (index : Nat) (siblings : List Sibling) :
    layoutSiblings path index siblings = (siblings.zipIdx index).map fun entry =>
      layoutMembers (path.join (indexText entry.2)) entry.1.members := by
  induction siblings generalizing index with
  | nil => rfl
  | cons sibling rest ih =>
      obtain ⟨pristine, members⟩ := sibling
      rw [layoutSiblings, ih, List.zipIdx_cons, List.map_cons]
      rfl

namespace Layout

theorem rebaseMembers_eq (place : Path) (members : List (String × Layout)) :
    rebaseMembers place members =
      members.map fun entry => (entry.1, entry.2.rebase (place.join entry.1)) := by
  induction members with
  | nil => rfl
  | cons entry rest ih => simp only [rebaseMembers, ih, List.map_cons]

theorem renumber_eq (place : Path) (index : Nat) (siblings : List (List (String × Layout))) :
    renumber place index siblings = (siblings.zipIdx index).map fun entry =>
      rebaseMembers (place.join (indexText entry.2)) entry.1 := by
  induction siblings generalizing index with
  | nil => rfl
  | cons members rest ih => rw [renumber, ih, List.zipIdx_cons, List.map_cons]

theorem memberElements_eq (members : List (String × Layout)) :
    memberElements members = members.flatMap fun entry => entry.2.elements := by
  induction members with
  | nil => rfl
  | cons entry rest ih => simp only [memberElements, ih, List.flatMap_cons]

theorem siblingElements_eq (siblings : List (List (String × Layout))) :
    siblingElements siblings = siblings.flatMap memberElements := by
  induction siblings with
  | nil => rfl
  | cons members rest ih => simp only [siblingElements, ih, List.flatMap_cons]

end Layout

/-! ## Moving -/

open Layout

theorem Node.path_layout (path : Path) (node : Node) : (node.layout path).path = path := by
  cases node <;> rfl

theorem Member.rebase_layout (path place : Path) (member : Member) :
    (member.layout path).rebase place = member.layout place := by
  induction member using Member.induction generalizing path place with
  | field entry => rfl
  | fieldset group members ih =>
      simp only [layout, rebase, rebaseMembers_eq, layoutAll_eq, List.map_map]
      refine congrArg _ (List.map_congr_left ?_)
      intro entry inside
      simp only [Function.comp_apply, ih entry inside]

theorem Member.rebaseMembers_layoutAll (path place : Path) (members : List (String × Member)) :
    rebaseMembers place (layoutAll path members) = layoutAll place members := by
  simp only [rebaseMembers_eq, layoutAll_eq, List.map_map, Function.comp_def, Member.rebase_layout]

namespace Node

/-- A node that is moved to a path remembers what it would remember had it been built there. -/
theorem rebase_layout (path place : Path) (node : Node) :
    (node.layout path).rebase place = node.layout place := by
  induction node using Node.induction generalizing path place with
  | form content => rw [layout, rebase, Member.rebaseMembers_layoutAll, layout]
  | collection frame progress members ih =>
      simp only [layout, rebase, rebaseMembers_eq, layoutMembers_eq, List.map_map]
      refine congrArg _ (List.map_congr_left ?_)
      intro entry inside
      simp only [Function.comp_apply, ih entry inside]
  | series frame template siblings inTemplate inSiblings =>
      have moved {members : List (String × Node)} (path place : Path)
          (inMembers : ∀ entry ∈ members, ∀ path place : Path,
            (entry.2.layout path).rebase place = entry.2.layout place) :
          rebaseMembers place (layoutMembers path members) = layoutMembers place members := by
        simp only [rebaseMembers_eq, layoutMembers_eq, List.map_map]
        refine List.map_congr_left ?_
        intro entry inside
        simp only [Function.comp_apply, inMembers entry inside]
      rw [layout, rebase, layout, moved _ _ inTemplate]
      refine congrArg _ (List.ext_getElem? ?_)
      intro index
      rw [renumber_eq, layoutSiblings_eq, layoutSiblings_eq]
      simp only [List.getElem?_map, List.getElem?_zipIdx, Nat.zero_add]
      cases stands : siblings[index]? with
      | none => rfl
      | some sibling =>
          simp only [Option.map_some]
          rw [moved _ _ (inSiblings sibling (List.mem_of_getElem? stands))]

theorem rebaseMembers_layoutMembers (path place : Path) (members : List (String × Node)) :
    rebaseMembers place (layoutMembers path members) = layoutMembers place members := by
  simp only [rebaseMembers_eq, layoutMembers_eq, List.map_map, Function.comp_def, rebase_layout]

/-! ## Siblings that come and go -/

theorem getElem?_layoutSiblings (path : Path) (siblings : List Sibling) (index : Nat) :
    (layoutSiblings path 0 siblings)[index]? = siblings[index]?.map fun sibling =>
      layoutMembers (path.join (indexText index)) sibling.members := by
  simp only [layoutSiblings_eq, List.getElem?_map, List.getElem?_zipIdx, Nat.zero_add, Option.map_map,
    Function.comp_def]

theorem getElem?_renumberFrom (path : Path) (first : Nat) (siblings : List (List (String × Layout)))
    (index : Nat) : (renumberFrom path first siblings)[index]? = siblings[index]?.map fun members =>
      if index < first then members else rebaseMembers (path.join (indexText index)) members := by
  rw [renumberFrom, renumber_eq]
  by_cases before : index < first
  · have kept : (siblings.take first)[index]? = siblings[index]? := by
      rw [List.getElem?_take, if_pos before]
    simp only [if_pos before, Option.map_id']
    cases stands : siblings[index]? with
    | none =>
        have short := List.getElem?_eq_none_iff.mp stands
        rw [List.drop_eq_nil_of_le (by omega), List.zipIdx_nil, List.map_nil, List.append_nil, kept, stands]
    | some members =>
        rw [List.getElem?_append_left (List.getElem?_eq_some_iff.mp (kept.trans stands)).1, kept, stands]
  · have after : first + (index - first) = index := by omega
    simp only [if_neg before]
    by_cases short : siblings.length ≤ index
    · rw [List.getElem?_eq_none_iff.mpr short, Option.map_none, List.getElem?_eq_none_iff]
      simp only [List.length_append, List.length_take, List.length_map, List.length_zipIdx, List.length_drop]
      omega
    · have taken : (siblings.take first).length = first := List.length_take_of_le (by omega)
      rw [List.getElem?_append_right (by omega), taken, List.getElem?_map, List.getElem?_zipIdx,
        List.getElem?_drop, after, Option.map_map]
      rfl

/-- A copy of the template put among the siblings, with the siblings behind it renumbered, is what a
series remembers that was built with the new sibling. -/
theorem layoutSiblings_insertIdx (path : Path) (template : List (String × Layout)) (position : Nat)
    (siblings : List Sibling) (added : Sibling)
    (copy : rebaseMembers (path.join (indexText position)) template =
      layoutMembers (path.join (indexText position)) added.members) :
    renumberFrom path (position + 1) ((layoutSiblings path 0 siblings).insertIdx position
        (rebaseMembers (path.join (indexText position)) template)) =
      layoutSiblings path 0 (siblings.insertIdx position added) := by
  refine List.ext_getElem? ?_
  intro index
  have length : (layoutSiblings path 0 siblings).length = siblings.length := by
    rw [layoutSiblings_eq, List.length_map, List.length_zipIdx]
  rw [getElem?_renumberFrom, getElem?_layoutSiblings, List.getElem?_insertIdx, List.getElem?_insertIdx, length]
  rcases Nat.lt_trichotomy index position with before | rfl | behind
  · rw [if_pos before, if_pos before, getElem?_layoutSiblings, Option.map_map]
    simp only [Function.comp_def, if_pos (Nat.lt_succ_of_lt before)]
  · simp only [Nat.lt_irrefl, if_false, if_true, if_pos (Nat.lt_succ_self _), Option.map_id', copy]
    split
    · rfl
    · rfl
  · simp only [if_neg (Nat.lt_asymm behind), if_neg (Nat.ne_of_gt behind), getElem?_layoutSiblings,
      Option.map_map, Function.comp_def, if_neg (Nat.not_lt_of_ge behind), rebaseMembers_layoutMembers]

/-- A sibling left out, with the siblings behind it renumbered, is what a series remembers that was built
without it. -/
theorem layoutSiblings_eraseIdx (path : Path) (index : Nat) (siblings : List Sibling) :
    renumberFrom path index ((layoutSiblings path 0 siblings).eraseIdx index) =
      layoutSiblings path 0 (siblings.eraseIdx index) := by
  refine List.ext_getElem? ?_
  intro other
  rw [getElem?_renumberFrom, getElem?_layoutSiblings, List.getElem?_eraseIdx, List.getElem?_eraseIdx]
  by_cases before : other < index
  · simp only [if_pos before, getElem?_layoutSiblings, Option.map_id']
  · simp only [if_neg before, getElem?_layoutSiblings, Option.map_map, Function.comp_def,
      rebaseMembers_layoutMembers]

end Node

/-! ## What leaves the paths alone -/

/-- What is read off the items of a list is the same if it depends on another view alone. -/
theorem map_eq_of_map_eq {α β γ : Type} {view : α → β} {image : α → γ} {items others : List α}
    (reads : ∀ item ∈ items, ∀ other, view item = view other → image item = image other)
    (same : items.map view = others.map view) : items.map image = others.map image := by
  induction items generalizing others with
  | nil =>
      rw [List.map_nil, eq_comm, List.map_eq_nil_iff] at same
      rw [same]
  | cons item rest ih =>
      cases others with
      | nil => cases same
      | cons other rest' =>
          obtain ⟨sameHead, sameRest⟩ := List.cons.inj same
          rw [List.map_cons, List.map_cons, reads item (List.mem_cons_self ..) other sameHead,
            ih (fun item inside => reads item (List.mem_cons_of_mem _ inside)) sameRest]

/-- What a member remembers depends on its plan alone. -/
theorem Member.layout_congr {member other : Member} (same : member.plan = other.plan) (path : Path) :
    member.layout path = other.layout path := by
  induction member using Member.induction generalizing other path with
  | field entry =>
      cases other with
      | field _ => rfl
      | fieldset _ _ => cases same
  | fieldset group members ih =>
      cases other with
      | field _ => cases same
      | fieldset _ others =>
          have plans := (MemberPlan.fieldset.inj same).2
          rw [plans_eq, plans_eq] at plans
          rw [layout, layout, layoutAll_eq, layoutAll_eq]
          refine congrArg _ (map_eq_of_map_eq (fun entry inside other same => ?_) plans)
          obtain ⟨sameName, samePlan⟩ := Prod.mk.inj same
          rw [sameName, ih entry inside samePlan]

/-- What a form remembers depends on its plan alone. -/
theorem Form.layoutAll_congr {form other : Form} (same : form.plan = other.plan) (path : Path) :
    Member.layoutAll path form.members = Member.layoutAll path other.members := by
  have plans := (NodePlan.form.inj same).2.2
  rw [Member.plans_eq, Member.plans_eq] at plans
  rw [Member.layoutAll_eq, Member.layoutAll_eq]
  refine map_eq_of_map_eq (fun entry inside other same => ?_) plans
  obtain ⟨sameName, samePlan⟩ := Prod.mk.inj same
  rw [sameName, Member.layout_congr samePlan]

namespace Node

/-- A change of forms that keeps their plans leaves all paths alone. -/
theorem layout_map {onForm : Path → Form → Form} {onFrame : Path → Frame → Frame}
    (keepsForm : ∀ path content, (onForm path content).plan = content.plan) (liveOnly : Bool)
    (path place : Path) (node : Node) :
    (node.map liveOnly onForm onFrame path).layout place = node.layout place := by
  induction node using Node.induction generalizing path place with
  | form content => rw [map, layout, layout, Form.layoutAll_congr (keepsForm path content)]
  | collection frame progress members ih =>
      simp only [map, layout, mapMembers_eq, layoutMembers_eq, List.map_map]
      refine congrArg _ (List.map_congr_left ?_)
      intro entry inside
      simp only [Function.comp_apply, ih entry inside]
  | series frame template siblings _ ih =>
      rw [map, layout, layout]
      refine congrArg _ (List.ext_getElem? ?_)
      intro index
      rw [getElem?_layoutSiblings, getElem?_layoutSiblings, mapSiblings_eq, List.getElem?_map,
        List.getElem?_zipIdx]
      cases stands : siblings[index]? with
      | none => rfl
      | some sibling =>
          simp only [Option.map_some, Sibling.members_mk]
          split
          · rfl
          · simp only [layoutMembers_eq, mapMembers_eq, List.map_map]
            refine congrArg some (List.map_congr_left ?_)
            intro entry inside
            simp only [Function.comp_apply, ih sibling (List.mem_of_getElem? stands) entry inside]

/-- A change along a path that leaves the paths of every node alone leaves all paths alone. -/
theorem layout_along {change : List String → Node → Node}
    (keeps : ∀ segments node place, (change segments node).layout place = node.layout place)
    (segments : List String) (place : Path) (node : Node) :
    (node.along change segments).layout place = node.layout place := by
  have members {entries : List (String × Node)} (rest : List String) (place : Path)
      (ih : ∀ entry ∈ entries, ∀ segments place,
        (entry.2.along change segments).layout place = entry.2.layout place) :
      layoutMembers place (alongMembers change rest entries) = layoutMembers place entries := by
    rw [alongMembers_eq]
    cases rest with
    | nil => rfl
    | cons first rest =>
        rw [layoutMembers_eq, layoutMembers_eq]
        exact Assoc.map_modify (fun entry inside => by rw [ih entry inside]) first
  induction node using Node.induction generalizing segments place with
  | form content => rw [along, keeps]
  | collection frame progress entries ih =>
      rw [along, keeps, layout, layout, members segments place fun entry inside segments place =>
        ih entry inside segments place]
  | series frame template siblings _ ih =>
      have changed (rest : List String) (position : Nat) :
          layoutSiblings place 0 (alongSiblings change rest position siblings) =
            layoutSiblings place 0 siblings := by
        rw [alongSiblings_eq]
        refine List.ext_getElem? ?_
        intro index
        rw [getElem?_layoutSiblings, getElem?_layoutSiblings, List.getElem?_modify]
        cases stands : siblings[index]? with
        | none => rfl
        | some sibling =>
            by_cases here : position = index
            · simp only [here, if_true, Option.map_eq_map, Option.map_some, Sibling.members_mk]
              rw [members rest _ (ih sibling (List.mem_of_getElem? stands))]
            · simp [here]
      cases segments with
      | nil => rw [along, keeps]
      | cons index rest =>
          rw [along, keeps]
          cases read : canonicalIndex? index with
          | none => simp only
          | some position => simp only [layout, changed]

end Node

end Formwork
