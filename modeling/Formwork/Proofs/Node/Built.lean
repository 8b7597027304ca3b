import Mathlib.Data.List.InsertIdx
import Formwork.Proofs.Building
import Formwork.Proofs.Node.Listing

/-!
# Built nodes

What holds of every form and every frame when it is built, whatever its plan is, holds of the forms and frames
of a node and of its templates ever after (`Node.Built`), as long as it is about what building fixes. For
no change of a node makes a form or a frame of its own: a sibling that is added is a copy of a template.
-/

set_option autoImplicit false

namespace Formwork

/-! ## Within a form -/

/-- Every field and every fieldset that is built has a given property. -/
structure Item.ByBuilding (holds : Item → Prop) : Prop where
  field : ∀ path plan entry, Field.build path plan = .ok entry → holds (.field entry)
  fieldset : ∀ path plan group, Member.checkFieldset path plan.conditions = .ok () →
    Group.build path plan = .ok group → holds (.fieldset group)

namespace Member

variable {holds : Item → Prop}

mutual
/-- What holds of every field and fieldset that is built holds of a member that is built and beneath it. -/
theorem build_items (always : Item.ByBuilding holds) {path place : Path} {plan : MemberPlan} {member : Member}
    (built : Member.build path plan = .ok member) : ∀ entry ∈ member.items place, holds entry.2 := by
  match plan with
  | .field plan =>
      simp only [Member.build, bind_eq_ok, pure_eq_ok] at built
      obtain ⟨own, ownBuilt, rfl⟩ := built
      rw [items, List.forall_mem_singleton]
      exact always.field path plan own ownBuilt
  | .fieldset plan plans =>
      simp only [Member.build, bind_eq_ok, pure_eq_ok] at built
      obtain ⟨_, checked, group, groupBuilt, members, membersBuilt, rfl⟩ := built
      rw [items, List.forall_mem_cons]
      exact ⟨always.fieldset path plan group checked groupBuilt, buildAll_items always membersBuilt⟩

/-- `build_items` for the members of a group. -/
theorem buildAll_items (always : Item.ByBuilding holds) {path place : Path} {plans : List (String × MemberPlan)}
    {members : List (String × Member)} (built : Member.buildAll path plans = .ok members) :
    ∀ entry ∈ itemsAll place members, holds entry.2 := by
  match plans with
  | [] =>
      cases built
      rw [itemsAll]
      exact List.forall_mem_nil _
  | (name, plan) :: rest =>
      simp only [Member.buildAll, bind_eq_ok, pure_eq_ok] at built
      obtain ⟨_, -, member, memberBuilt, others, othersBuilt, rfl⟩ := built
      rw [itemsAll, List.forall_mem_append]
      exact ⟨build_items always memberBuilt, buildAll_items always othersBuilt⟩
end

end Member

end Formwork

namespace Formwork.Node

open Formwork.Text

/-- Every form and every frame at and beneath a node, those of templates included, was built as something of
which a given property holds. -/
inductive Built (ofForm : Form → Prop) (ofFrame : Frame → Prop) : Node → Prop where
  | form {content : Form} (own : ofForm content.asBuilt) : Built ofForm ofFrame (.form content)
  | collection {frame : Frame} {progress : Option Progress} {members : List (String × Node)}
      (own : ofFrame frame.asBuilt) (inner : ∀ entry ∈ members, Built ofForm ofFrame entry.2) :
      Built ofForm ofFrame (.collection frame progress members)
  | series {frame : Frame} {template : List (String × Node)} {siblings : List Sibling}
      (own : ofFrame frame.asBuilt) (inTemplate : ∀ entry ∈ template, Built ofForm ofFrame entry.2)
      (inner : ∀ sibling ∈ siblings, ∀ entry ∈ sibling.members, Built ofForm ofFrame entry.2) :
      Built ofForm ofFrame (.series frame template siblings)

/-- Every form and every frame that is built has a given property. -/
structure ByBuilding (ofForm : Form → Prop) (ofFrame : Frame → Prop) : Prop where
  form : ∀ path placement plan dialog members content,
    Form.build path placement plan dialog members = .ok content → ofForm content.asBuilt
  frame : ∀ path placement plan frame, buildFrame path placement plan = .ok frame → ofFrame frame.asBuilt

variable {ofForm : Form → Prop} {ofFrame : Frame → Prop}

/-! ## The start -/

mutual
/-- What holds of every form and frame that is built holds throughout a node that is built. -/
theorem build_built (always : ByBuilding ofForm ofFrame) {path : Path} {placement : Placement}
    {plan : NodePlan} {node : Node} (built : Node.build path placement plan = .ok node) :
    node.Built ofForm ofFrame := by
  match plan with
  | .form plan dialog members =>
      simp only [Node.build, bind_eq_ok, pure_eq_ok] at built
      obtain ⟨content, contentBuilt, rfl⟩ := built
      exact .form (always.form _ _ _ _ _ _ contentBuilt)
  | .collection plan members =>
      simp only [Node.build, bind_eq_ok] at built
      obtain ⟨frame, frameBuilt, built⟩ := built
      split at built
      · simp only [bind_eq_ok, pure_eq_ok] at built
        obtain ⟨template, templateBuilt, rfl⟩ := built
        have inTemplate := buildMembers_built always templateBuilt
        refine .series (always.frame _ _ _ _ frameBuilt) inTemplate fun sibling inside => ?_
        rw [(members_of_mem_populate inside).resolve_left (by simp)]
        exact inTemplate
      · simp only [bind_eq_ok, pure_eq_ok] at built
        obtain ⟨entries, entriesBuilt, rfl⟩ := built
        exact .collection (always.frame _ _ _ _ frameBuilt) (buildMembers_built always entriesBuilt)
  | .stepper plan members =>
      simp only [Node.build] at built
      split at built
      · cases built
      · split at built
        · cases built
        · simp only [bind_eq_ok, pure_eq_ok] at built
          obtain ⟨frame, frameBuilt, entries, entriesBuilt, rfl⟩ := built
          exact .collection (always.frame _ _ _ _ frameBuilt) (buildMembers_built always entriesBuilt)

/-- `build_built` for the members of a collection. -/
theorem buildMembers_built (always : ByBuilding ofForm ofFrame) {path : Path} {placement : Placement}
    {plans : List (String × NodePlan)} {members : List (String × Node)}
    (built : Node.buildMembers path placement plans = .ok members) :
    ∀ entry ∈ members, entry.2.Built ofForm ofFrame := by
  match plans with
  | [] =>
      cases built
      simp
  | (name, plan) :: rest =>
      simp only [Node.buildMembers, bind_eq_ok, pure_eq_ok] at built
      obtain ⟨_, -, node, nodeBuilt, others, othersBuilt, rfl⟩ := built
      exact List.forall_mem_cons.mpr ⟨build_built always nodeBuilt, buildMembers_built always othersBuilt⟩
end

namespace Built

theorem fill {node : Node} (built : node.Built ofForm ofFrame) (initial : Option Json) :
    (node.fill initial).Built ofForm ofFrame := by
  have members {entries : List (String × Node)}
      (ih : ∀ entry ∈ entries, ∀ initial, (entry.2.fill initial).Built ofForm ofFrame) (initial : Option Json) :
      ∀ entry ∈ fillMembers initial entries, entry.2.Built ofForm ofFrame := by
    rw [fillMembers_eq]
    exact List.forall_mem_map.mpr fun entry inside => ih entry inside _
  induction built generalizing initial with
  | form own => exact .form (by rwa [Form.asBuilt_fill])
  | collection own _ ih => exact .collection own (members ih initial)
  | series own inTemplate _ ih _ =>
      refine .series own inTemplate fun sibling inside => ?_
      rcases members_of_mem_populate inside with given | copy
      · obtain ⟨entry, -, rfl⟩ := List.mem_map.mp given
        exact members ih (some entry)
      · rwa [copy]

theorem markPrefilled {node : Node} (built : node.Built ofForm ofFrame) :
    node.markPrefilled.Built ofForm ofFrame := by
  induction built with
  | form own => exact .form own
  | collection own _ ih =>
      refine .collection own ?_
      rw [markPrefilledAll_eq]
      exact List.forall_mem_map.mpr ih
  | series own inTemplate inner _ _ => exact .series own inTemplate inner

/-- What stands in a node was built like everything in it. -/
theorem stands {node inner : Node} {segments : List String} (built : node.Built ofForm ofFrame)
    (stands : node.Stands segments inner) : inner.Built ofForm ofFrame := by
  induction stands with
  | here => exact built
  | member inside _ ih =>
      cases built with
      | collection _ inner => exact ih (inner _ inside)
  | sibling stands inside _ ih =>
      cases built with
      | series _ _ inner => exact ih (inner _ (List.mem_of_getElem? stands) _ inside)

/-! ## Changes -/

/-- A change of forms and frames that changes nothing that building fixes. -/
theorem map {onForm : Path → Form → Form} {onFrame : Path → Frame → Frame}
    (keepsForm : ∀ path content, (onForm path content).asBuilt = content.asBuilt)
    (keepsFrame : ∀ path frame, (onFrame path frame).asBuilt = frame.asBuilt) (liveOnly : Bool) (path : Path)
    {node : Node} (built : node.Built ofForm ofFrame) :
    (node.map liveOnly onForm onFrame path).Built ofForm ofFrame := by
  induction built generalizing path with
  | form own => exact .form (by rwa [keepsForm])
  | collection own _ ih =>
      refine .collection (by rwa [keepsFrame]) ?_
      rw [mapMembers_eq]
      exact List.forall_mem_map.mpr fun entry inside => ih entry inside _
  | series own inTemplate inner _ ih =>
      refine .series (by rwa [keepsFrame]) inTemplate ?_
      rw [mapSiblings_eq]
      refine List.forall_mem_map.mpr fun entry inside => ?_
      have stands := List.fst_mem_of_mem_zipIdx inside
      rw [Sibling.members_mk]
      split
      · exact inner _ stands
      · rw [mapMembers_eq]
        exact List.forall_mem_map.mpr fun member there => ih _ stands member there _

/-- A change along a path that makes no node of its own. -/
theorem along {change : List String → Node → Node}
    (keeps : ∀ segments (node : Node), node.Built ofForm ofFrame → (change segments node).Built ofForm ofFrame)
    (segments : List String) {node : Node} (built : node.Built ofForm ofFrame) :
    (node.along change segments).Built ofForm ofFrame := by
  have members {entries : List (String × Node)} {rest : List String}
      (inner : ∀ entry ∈ entries, entry.2.Built ofForm ofFrame)
      (ih : ∀ entry ∈ entries, ∀ segments, (entry.2.along change segments).Built ofForm ofFrame) :
      ∀ entry ∈ alongMembers change rest entries, entry.2.Built ofForm ofFrame := by
    rw [alongMembers_eq]
    cases rest with
    | nil => exact inner
    | cons first rest =>
        intro entry inside
        rcases Assoc.mem_modify inside with old | ⟨value, there, rfl⟩
        · exact inner entry old
        · exact ih (first, value) there rest
  induction built generalizing segments with
  | form own => exact keeps _ _ (.form own)
  | collection own inner ih =>
      rw [Node.along]
      exact keeps _ _ (.collection own (members inner fun entry inside segments => ih entry inside segments))
  | @series frame template siblings own inTemplate inner _ ih =>
      have changed (rest : List String) (position : Nat) :
          (Node.series frame template (alongSiblings change rest position siblings)).Built ofForm ofFrame := by
        rw [alongSiblings_eq]
        refine .series own inTemplate fun sibling inside => ?_
        rcases mem_of_mem_modify inside with old | ⟨old, there, rfl⟩
        · exact inner sibling old
        · exact members (inner old there) fun entry inside segments => ih old there entry inside segments
      cases segments with
      | nil => exact keeps _ _ (.series own inTemplate inner)
      | cons index rest =>
          rw [Node.along]
          cases read : canonicalIndex? index with
          | none => simpa only [read] using keeps _ _ (.series own inTemplate inner)
          | some position => simpa only [read] using keeps _ _ (changed rest position)

theorem modifyForm {change : List String → Form → Form}
    (keeps : ∀ names content, (change names content).asBuilt = content.asBuilt) (segments : List String)
    {node : Node} (built : node.Built ofForm ofFrame) : (node.modifyForm change segments).Built ofForm ofFrame := by
  refine along (fun names inner isBuilt => ?_) segments built
  cases isBuilt with
  | form own => exact .form (by rwa [keeps])
  | collection own inner => exact .collection own inner
  | series own inTemplate inner => exact .series own inTemplate inner

/-- A node may be put in the place of another one. -/
theorem modify {segments : List String} {node inner moved : Node} (built : node.Built ofForm ofFrame)
    (stands : node.get? segments = some inner) (isBuilt : moved.Built ofForm ofFrame) :
    (node.modify (fun _ => moved) segments).Built ofForm ofFrame := by
  classical
  rw [modify_eq_along stands]
  refine along (fun rest other otherBuilt => ?_) segments built
  split
  · exact isBuilt
  · exact otherBuilt

theorem touch (segments : List String) {node : Node} (built : node.Built ofForm ofFrame) :
    (node.touch segments).Built ofForm ofFrame := by
  refine along (fun rest inner isBuilt => ?_) segments built
  split
  · split
    · cases isBuilt with
      | series own inTemplate inner =>
          refine .series own inTemplate fun sibling inside => ?_
          rcases mem_of_mem_modify inside with old | ⟨old, there, rfl⟩
          · exact inner sibling old
          · obtain ⟨pristine, members⟩ := old
            exact inner (.mk pristine members) there
    · exact isBuilt
  · exact isBuilt

theorem validate (path : Path) {node : Node} (built : node.Built ofForm ofFrame) :
    (node.validate path).Built ofForm ofFrame := by
  refine built.map (fun place content => ?_) (fun _ _ => rfl) true path
  split
  · rfl
  · exact content.asBuilt_validate place

theorem goTo {path : Path} {index : Nat} {node moved : Node} {failures : List (Path × List String)}
    (built : node.Built ofForm ofFrame) (gone : node.goTo path index = .ok (moved, failures)) :
    moved.Built ofForm ofFrame := by
  obtain ⟨frame, progress, members, reached, first, last, rfl, rfl⟩ := goTo_eq_ok gone
  cases built with
  | collection own inner =>
      refine .collection own fun entry inside => ?_
      obtain ⟨old, there, same | checked⟩ := mem_validateSteps inside
      · exact same ▸ inner _ there
      · exact checked ▸ (inner _ there).validate _

/-- An elementary change makes no form and no frame of its own. -/
theorem move {node later : Node} (built : node.Built ofForm ofFrame) (regular : node.Regular)
    (move : Move node later) : later.Built ofForm ofFrame := by
  cases move with
  | everywhere forms frames liveOnly path =>
      exact built.map (fun place content => Form.asBuilt_move (forms place content))
        (fun place frame => Frame.asBuilt_move (frames place frame)) liveOnly path
  | onTheWay forms segments =>
      exact built.modifyForm (fun names content => Form.asBuilt_move (forms names content)) segments
  | touch segments => exact built.touch segments
  | validatePart place segments =>
      refine built.along (fun rest inner isBuilt => ?_) segments
      split
      · exact isBuilt.validate place
      · exact isBuilt
  | goTo stands gone =>
      exact built.modify stands ((built.stands ((get?_eq_some_iff regular).mp stands)).goTo gone)

theorem addSibling {path : Path} {behind : Option Nat} {node extended : Node} {position : Nat}
    (built : node.Built ofForm ofFrame) (added : node.addSibling path behind = .ok (extended, position)) :
    extended.Built ofForm ofFrame := by
  obtain ⟨frame, template, siblings, rfl, rfl, -⟩ := addSibling_eq_ok added
  cases built with
  | series own inTemplate inner =>
      refine .series own inTemplate fun sibling among => ?_
      rcases List.eq_or_mem_of_mem_insertIdx among with rfl | old
      · exact inTemplate
      · exact inner sibling old

theorem removeSibling {path : Path} {index : Nat} {node reduced : Node} (built : node.Built ofForm ofFrame)
    (removed : node.removeSibling path index = .ok reduced) : reduced.Built ofForm ofFrame := by
  obtain ⟨frame, template, siblings, rfl, rfl, -⟩ := removeSibling_eq_ok removed
  cases built with
  | series own inTemplate inner =>
      exact .series own inTemplate fun sibling inside => inner sibling (List.mem_of_mem_eraseIdx inside)

end Built

/-! ## Listings of what building fixes -/

/-- An elementary change keeps every listing of what building fixes. -/
theorem listing_move {α : Type} (ofForm : Path → Form → List α) (ofFrame : Path → Frame → List α)
    {node later : Node} (move : Move node later) (path : Path) :
    later.listing (fun place content => ofForm place content.asBuilt)
        (fun place frame => ofFrame place frame.asBuilt) path =
      node.listing (fun place content => ofForm place content.asBuilt)
        (fun place frame => ofFrame place frame.asBuilt) path := by
  cases move with
  | everywhere forms frames liveOnly here =>
      exact listing_map (fun here place content => by rw [Form.asBuilt_move (forms here content)])
        (fun here place frame => by rw [Frame.asBuilt_move (frames here frame)]) liveOnly here path node
  | onTheWay forms segments =>
      exact listing_modifyForm (fun place names content => by rw [Form.asBuilt_move (forms names content)])
        segments path node
  | touch segments => exact listing_touch segments path node
  | validatePart here segments =>
      refine listing_along (fun rest inner place => ?_) segments path node
      split
      · refine listing_map (fun here place content => ?_) (fun _ _ _ => rfl) true here place inner
        split
        · rfl
        · rw [Form.asBuilt_validate]
      · rfl
  | goTo stands gone =>
      exact listing_modify stands (listing_goTo (fun here place content => by rw [Form.asBuilt_validate]) gone) path

end Formwork.Node
