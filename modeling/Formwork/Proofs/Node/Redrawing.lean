import Formwork.Proofs.Node.Everywhere
import Formwork.Proofs.Node.Marks
import Formwork.Proofs.Node.Payload
import Formwork.Proofs.Node.Stepping

/-!
# Nodes redrawn

To redraw a node is to change each of its forms and frames in the same way wherever it stands, and to forget how far
the steppers have come (`Node.redraw`). What two nodes have in common in spite of what may happen to dialogs, steps
and messages is that they are the same once they are redrawn.

A change of everything, a change along a path and a move to a step are seen in a redrawn node as what they make of
forms and frames, and in no other way (`redraw_map`, `redraw_along`, `redraw_goTo`). A redrawn node still shows its
forms, its frames and its marks where they stood (`forms_redraw`, `frames_redraw`, `markings_redraw`).
-/

set_option autoImplicit false

namespace Formwork.Node

open Formwork.Text

mutual
/-- The node with every form and every frame redrawn, and without the progress of its steppers. -/
def redraw (onForm : Form → Form) (onFrame : Frame → Frame) : Node → Node
  | .form content => .form (onForm content)
  | .collection frame _ members => .collection (onFrame frame) none (redrawMembers onForm onFrame members)
  | .series frame template siblings =>
    .series (onFrame frame) template (redrawSiblings onForm onFrame siblings)

/-- `redraw` for named members. -/
def redrawMembers (onForm : Form → Form) (onFrame : Frame → Frame) : List (String × Node) → List (String × Node)
  | [] => []
  | (name, node) :: rest => (name, node.redraw onForm onFrame) :: redrawMembers onForm onFrame rest

/-- `redraw` for siblings. -/
def redrawSiblings (onForm : Form → Form) (onFrame : Frame → Frame) : List Sibling → List Sibling
  | [] => []
  | .mk pristine members :: rest =>
    .mk pristine (redrawMembers onForm onFrame members) :: redrawSiblings onForm onFrame rest
end

section Redraw

variable {onForm : Form → Form} {onFrame : Frame → Frame}

theorem redrawMembers_eq (members : List (String × Node)) :
    redrawMembers onForm onFrame members = members.map fun entry => (entry.1, entry.2.redraw onForm onFrame) := by
  induction members with
  | nil => rfl
  | cons entry rest ih => simp only [redrawMembers, ih, List.map_cons]

theorem redrawSiblings_eq (siblings : List Sibling) :
    redrawSiblings onForm onFrame siblings = siblings.map fun sibling =>
      .mk sibling.isPristine (sibling.members.map fun entry => (entry.1, entry.2.redraw onForm onFrame)) := by
  induction siblings with
  | nil => rfl
  | cons sibling rest ih =>
      obtain ⟨pristine, members⟩ := sibling
      simp only [redrawSiblings, redrawMembers_eq, ih, List.map_cons, Sibling.isPristine_mk, Sibling.members_mk]

theorem redraw_collection (frame : Frame) (progress : Option Progress) (members : List (String × Node)) :
    (Node.collection frame progress members).redraw onForm onFrame =
      .collection (onFrame frame) none (members.map fun entry => (entry.1, entry.2.redraw onForm onFrame)) := by
  rw [redraw, redrawMembers_eq]

theorem redraw_series (frame : Frame) (template : List (String × Node)) (siblings : List Sibling) :
    (Node.series frame template siblings).redraw onForm onFrame =
      .series (onFrame frame) template (siblings.map fun sibling =>
        .mk sibling.isPristine (sibling.members.map fun entry => (entry.1, entry.2.redraw onForm onFrame))) := by
  rw [redraw, redrawSiblings_eq]

/-- To redraw twice is to redraw once with both changes. -/
theorem redraw_redraw (laterForm : Form → Form) (laterFrame : Frame → Frame) (node : Node) :
    (node.redraw onForm onFrame).redraw laterForm laterFrame =
      node.redraw (laterForm ∘ onForm) (laterFrame ∘ onFrame) := by
  induction node using Node.induction with
  | form content => rfl
  | collection frame progress members ih =>
      rw [redraw_collection, redraw_collection, redraw_collection, List.map_map]
      exact congrArg _ (List.map_congr_left fun entry inside => Prod.ext rfl (ih entry inside))
  | series frame template siblings _ ih =>
      rw [redraw_series, redraw_series, redraw_series, List.map_map]
      refine congrArg _ (List.map_congr_left fun sibling inside => ?_)
      simp only [Function.comp_apply, Sibling.isPristine_mk, Sibling.members_mk, List.map_map]
      exact congrArg _ (List.map_congr_left fun entry there => Prod.ext rfl (ih sibling inside entry there))

/-! ## What a redrawn node shows -/

theorem nodes_redraw (liveOnly : Bool) (path : Path) (node : Node) :
    (node.redraw onForm onFrame).nodes liveOnly path =
      (node.nodes liveOnly path).map fun entry => (entry.1, entry.2.redraw onForm onFrame) := by
  have members {entries : List (String × Node)} (place : Path)
      (ih : ∀ entry ∈ entries, ∀ path, (entry.2.redraw onForm onFrame).nodes liveOnly path =
        (entry.2.nodes liveOnly path).map fun entry => (entry.1, entry.2.redraw onForm onFrame)) :
      memberNodes liveOnly place (entries.map fun entry => (entry.1, entry.2.redraw onForm onFrame)) =
        (memberNodes liveOnly place entries).map fun entry => (entry.1, entry.2.redraw onForm onFrame) := by
    rw [memberNodes_eq, memberNodes_eq, List.flatMap_map, List.map_flatMap]
    exact List.flatMap_congr fun entry inside => ih entry inside _
  induction node using Node.induction generalizing path with
  | form content => rfl
  | collection frame progress entries ih =>
      rw [nodes, List.map_cons, redraw_collection, nodes, members path ih]
  | series frame template siblings _ ih =>
      rw [nodes, List.map_cons, redraw_series, nodes]
      refine congrArg _ ?_
      generalize 0 = index
      induction siblings generalizing index with
      | nil => rfl
      | cons sibling rest ihRest =>
          obtain ⟨own, others⟩ := List.forall_mem_cons.mp ih
          obtain ⟨pristine, entries⟩ := sibling
          have inner := members (path.join (indexText index)) own
          rw [Sibling.members_mk] at inner
          rw [List.map_cons, siblingNodes, siblingNodes, List.map_append, ihRest others, Sibling.members_mk, inner]
          cases pristine with
          | true => cases liveOnly <;> rfl
          | false => cases liveOnly <;> rfl

theorem forms_redraw (liveOnly : Bool) (path : Path) (node : Node) :
    (node.redraw onForm onFrame).forms liveOnly path =
      (node.forms liveOnly path).map fun entry => (entry.1, onForm entry.2) := by
  rw [forms, forms, nodes_redraw, List.filterMap_map, List.map_filterMap]
  refine List.filterMap_congr fun entry _ => ?_
  obtain ⟨place, inner⟩ := entry
  cases inner <;> rfl

theorem frames_redraw (path : Path) (node : Node) :
    (node.redraw onForm onFrame).frames path = (node.frames path).map fun entry => (entry.1, onFrame entry.2) := by
  rw [frames, frames, nodes_redraw, List.filterMap_map, List.map_filterMap]
  refine List.filterMap_congr fun entry _ => ?_
  obtain ⟨place, inner⟩ := entry
  cases inner <;> rfl

theorem markings_redraw (path : Path) (node : Node) :
    (node.redraw onForm onFrame).markings path = node.markings path := by
  rw [markings, markings, survey, survey, nodes_redraw, List.flatMap_map]
  refine List.flatMap_congr fun entry _ => ?_
  obtain ⟨place, inner⟩ := entry
  cases inner with
  | form content => rfl
  | collection frame progress members => rfl
  | series frame template siblings =>
      dsimp only
      rw [redraw_series, face, face, List.map_map]
      rfl

theorem views_redraw {α : Type} {view : Field → α}
    (keeps : ∀ place content,
      Member.views view place (onForm content).members = Member.views view place content.members)
    (path : Path) (node : Node) : (node.redraw onForm onFrame).views view path = node.views view path := by
  rw [views_eq, views_eq, forms_redraw, List.flatMap_map]
  exact List.flatMap_congr fun entry _ => keeps entry.1 entry.2

/-- A redrawn node sends the same if its forms do. -/
theorem wire_redraw (keeps : ∀ content, (onForm content).wire = content.wire) (node : Node) :
    (node.redraw onForm onFrame).wire = node.wire := by
  have all {members : List (String × Node)}
      (ih : ∀ entry ∈ members, (entry.2.redraw onForm onFrame).wire = entry.2.wire) :
      wireMembers (members.map fun entry => (entry.1, entry.2.redraw onForm onFrame)) = wireMembers members := by
    rw [wireMembers_eq, wireMembers_eq, List.map_map]
    exact List.map_congr_left fun entry inside => Prod.ext rfl (ih entry inside)
  induction node using Node.induction with
  | form content => exact keeps content
  | collection frame progress members ih =>
      rw [redraw_collection, wire, wire]
      exact congrArg Json.object (all ih)
  | series frame template siblings _ ih =>
      rw [redraw_series, wire, wire, wireSiblings_eq, wireSiblings_eq, List.filter_map, List.map_map]
      refine congrArg Json.list (List.map_congr_left fun sibling inside => ?_)
      exact congrArg Json.object (all (ih sibling (List.mem_of_mem_filter inside)))

/-! ## Changes of everything -/

/-- A change that is not seen in forms and frames once they are redrawn. -/
theorem redraw_map {changeForm : Path → Form → Form} {changeFrame : Path → Frame → Frame}
    (sameForm : ∀ place content, onForm (changeForm place content) = onForm content)
    (sameFrame : ∀ place frame, onFrame (changeFrame place frame) = onFrame frame) (liveOnly : Bool) (path : Path)
    (node : Node) : (node.map liveOnly changeForm changeFrame path).redraw onForm onFrame =
      node.redraw onForm onFrame := by
  have members {entries : List (String × Node)} (place : Path)
      (ih : ∀ entry ∈ entries, ∀ path,
        (entry.2.map liveOnly changeForm changeFrame path).redraw onForm onFrame = entry.2.redraw onForm onFrame) :
      (mapMembers liveOnly changeForm changeFrame place entries).map
          (fun entry => (entry.1, entry.2.redraw onForm onFrame)) =
        entries.map fun entry => (entry.1, entry.2.redraw onForm onFrame) := by
    rw [mapMembers_eq, List.map_map]
    exact List.map_congr_left fun entry inside => Prod.ext rfl (ih entry inside _)
  induction node using Node.induction generalizing path with
  | form content => exact congrArg Node.form (sameForm path content)
  | collection frame progress entries ih =>
      rw [map, redraw_collection, redraw_collection, sameFrame, members path ih]
  | series frame template siblings _ ih =>
      rw [map, redraw_series, redraw_series, sameFrame, mapSiblings_eq, List.map_map]
      conv_rhs => rw [← List.zipIdx_map_fst 0 siblings, List.map_map]
      refine congrArg _ (List.map_congr_left fun entry inside => ?_)
      simp only [Function.comp_apply, Sibling.isPristine_mk, Sibling.members_mk]
      split
      · rfl
      · rw [members _ (ih entry.1 (List.fst_mem_of_mem_zipIdx inside))]

/-- A change of everything that goes with the redrawing of every form and frame may be made afterwards. -/
theorem redraw_map_comm {changeForm : Path → Form → Form} {changeFrame : Path → Frame → Frame}
    {drawForm : Form → Form} {drawFrame : Frame → Frame}
    (agreeForm : ∀ place content, onForm (changeForm place content) = changeForm place (drawForm content))
    (agreeFrame : ∀ place frame, onFrame (changeFrame place frame) = changeFrame place (drawFrame frame)) (path : Path)
    (node : Node) : (node.map false changeForm changeFrame path).redraw onForm onFrame =
      (node.redraw drawForm drawFrame).map false changeForm changeFrame path := by
  have members {entries : List (String × Node)} (place : Path)
      (ih : ∀ entry ∈ entries, ∀ path, (entry.2.map false changeForm changeFrame path).redraw onForm onFrame =
        (entry.2.redraw drawForm drawFrame).map false changeForm changeFrame path) :
      (mapMembers false changeForm changeFrame place entries).map
          (fun entry => (entry.1, entry.2.redraw onForm onFrame)) =
        mapMembers false changeForm changeFrame place
          (entries.map fun entry => (entry.1, entry.2.redraw drawForm drawFrame)) := by
    rw [mapMembers_eq, mapMembers_eq, List.map_map, List.map_map]
    exact List.map_congr_left fun entry inside => Prod.ext rfl (ih entry inside _)
  induction node using Node.induction generalizing path with
  | form content => exact congrArg Node.form (agreeForm path content)
  | collection frame progress entries ih =>
      rw [map, redraw_collection, redraw_collection, map, agreeFrame, members path ih]
  | series frame template siblings _ ih =>
      rw [map, redraw_series, redraw_series, map, agreeFrame, mapSiblings_eq, mapSiblings_eq, List.zipIdx_map,
        List.map_map, List.map_map]
      refine congrArg _ (List.map_congr_left fun entry inside => ?_)
      simp only [Function.comp_apply, Prod.map_fst, Prod.map_snd, id_eq, Sibling.isPristine_mk, Sibling.members_mk,
        Bool.false_and, Bool.false_eq_true, if_false]
      rw [members _ (ih entry.1 (List.fst_mem_of_mem_zipIdx inside))]

/-! ## Changes along a path -/

/-- A change along a path that goes with the redrawing of every node on the way may be made afterwards. -/
theorem redraw_along {change edit : List String → Node → Node}
    (agree : ∀ segments inner, (change segments inner).redraw onForm onFrame =
      edit segments (inner.redraw onForm onFrame)) (segments : List String) (node : Node) :
    (node.along change segments).redraw onForm onFrame = (node.redraw onForm onFrame).along edit segments := by
  have members {entries : List (String × Node)} (rest : List String)
      (ih : ∀ entry ∈ entries, ∀ segments, (entry.2.along change segments).redraw onForm onFrame =
        (entry.2.redraw onForm onFrame).along edit segments) :
      (alongMembers change rest entries).map (fun entry => (entry.1, entry.2.redraw onForm onFrame)) =
        alongMembers edit rest (entries.map fun entry => (entry.1, entry.2.redraw onForm onFrame)) := by
    rw [alongMembers_eq, alongMembers_eq]
    cases rest with
    | nil => rfl
    | cons first rest => exact Assoc.map_modify_comm (fun entry inside => ih entry inside rest) first
  induction node using Node.induction generalizing segments with
  | form content => exact agree segments _
  | collection frame progress entries ih =>
      rw [along, agree, redraw_collection, members segments ih, redraw_collection, along]
  | series frame template siblings _ ih =>
      cases segments with
      | nil => rw [along, agree, redraw_series, along]
      | cons index rest =>
          rw [along, agree, redraw_series, redraw_series, along]
          cases canonicalIndex? index with
          | none => rfl
          | some position =>
              dsimp only
              rw [alongSiblings_eq, alongSiblings_eq]
              refine congrArg _ (congrArg _ (map_modify_comm (fun sibling inside => ?_) position))
              simp only [Sibling.isPristine_mk, Sibling.members_mk]
              rw [members rest (ih sibling inside)]

/-- A change of the form on the way that is not seen once the form is redrawn. -/
theorem redraw_modifyForm {change : List String → Form → Form}
    (same : ∀ names content, onForm (change names content) = onForm content) (segments : List String) (node : Node) :
    (node.modifyForm change segments).redraw onForm onFrame = node.redraw onForm onFrame := by
  refine (@redraw_along onForm onFrame _ (fun _ inner => inner) (fun names inner => ?_) segments node).trans
    (along_eq_self fun _ _ => rfl)
  cases inner with
  | form content => exact congrArg Node.form (same names content)
  | collection frame progress members => rfl
  | series frame template siblings => rfl

/-- A node that looks the same once it is redrawn may be put in the place of another one. -/
theorem redraw_modify {segments : List String} {node inner moved : Node} (stands : node.get? segments = some inner)
    (same : moved.redraw onForm onFrame = inner.redraw onForm onFrame) :
    (node.modify (fun _ => moved) segments).redraw onForm onFrame = node.redraw onForm onFrame := by
  rw [modify_eq_along stands]
  refine (@redraw_along onForm onFrame _ (fun _ inner => inner) (fun rest other => ?_) segments node).trans
    (along_eq_self fun _ _ => rfl)
  split
  · rename_i here
    rw [here.2]
    exact same
  · rfl

/-- A move to a step changes the progress, which is forgotten, and otherwise records messages. -/
theorem redraw_goTo (keeps : ∀ place content, onForm (Form.validate place content) = onForm content)
    {path : Path} {index : Nat} {node moved : Node} {failures : List (Path × List String)}
    (gone : node.goTo path index = .ok (moved, failures)) :
    moved.redraw onForm onFrame = node.redraw onForm onFrame := by
  obtain ⟨frame, progress, members, reached, first, last, rfl, rfl⟩ := goTo_eq_ok gone
  rw [redraw_collection, redraw_collection]
  refine congrArg _ (map_validateSteps (fun name inner => Prod.ext rfl ?_) first last members)
  refine redraw_map (fun place content => ?_) (fun _ _ => rfl) true _ inner
  split
  · rfl
  · exact keeps place content

end Redraw

/-- A node is redrawn with a change of every form by changing the forms first. -/
theorem redraw_mapForms (onForm change : Form → Form) (onFrame : Frame → Frame) (node : Node) :
    (node.mapForms change).redraw onForm onFrame = node.redraw (onForm ∘ change) onFrame := by
  induction node using Node.induction with
  | form content => rfl
  | collection frame progress members ih =>
      rw [mapForms_collection, redraw_collection, redraw_collection, List.map_map]
      exact congrArg _ (List.map_congr_left fun entry inside => Prod.ext rfl (ih entry inside))
  | series frame template siblings _ ih =>
      rw [mapForms_series, redraw_series, redraw_series, List.map_map]
      refine congrArg _ (List.map_congr_left fun sibling inside => ?_)
      simp only [Function.comp_apply, Sibling.isPristine_mk, Sibling.members_mk, List.map_map]
      exact congrArg _ (List.map_congr_left fun entry there => Prod.ext rfl (ih sibling inside entry there))

end Formwork.Node
