import Formwork.Proofs.Flags
import Formwork.Proofs.Node.Places

/-!
# Changing everything

A change of every form and every frame changes each entry of the enumeration where it stands
(`nodes_map`), and it changes nothing if it leaves every form and every frame as it is
(`map_eq_self`). So a fact about all forms of a tree and a fact about the whole tree are the same.

What only touches messages is caught by `clearErrors`: two trees that are equal without their
messages have forms that are equal without their messages, and nothing else can differ.
-/

set_option autoImplicit false

namespace Formwork.Node

open Formwork.Text

/-- The frame of a collection or series. -/
def frame? : Node → Option Frame
  | .form _ => none
  | .collection frame _ _ => some frame
  | .series frame _ _ => some frame

/-- The frames at and beneath a node with their paths. -/
def frames (path : Path) (node : Node) : List (Path × Frame) :=
  (node.nodes false path).filterMap fun (place, inner) => inner.frame?.map (place, ·)

theorem frames_eq (path : Path) (node : Node) :
    node.frames path = (node.frame?.map (path, ·)).toList ++
      node.branches.flatMap fun branch => branch.2.frames (path.extend ⟨branch.1⟩) := by
  simp only [frames, nodes_eq path node, List.filterMap_cons, List.filterMap_flatMap]
  cases node.frame? <;> rfl

section Map

variable (onForm : Path → Form → Form) (onFrame : Path → Frame → Frame) (path : Path) (node : Node)

theorem nodes_map :
    (node.map false onForm onFrame path).nodes false path =
      (node.nodes false path).map fun entry => (entry.1, entry.2.map false onForm onFrame entry.1) := by
  induction node using branchInduction generalizing path with
  | step node ih =>
      rw [nodes_eq, nodes_eq, branches_map, List.flatMap_map, List.map_cons, List.map_flatMap]
      exact congrArg _ (List.flatMap_congr fun branch inside => ih branch inside _)

theorem form?_map : (node.map false onForm onFrame path).form? = node.form?.map (onForm path) := by
  cases node <;> rfl

theorem frame?_map : (node.map false onForm onFrame path).frame? = node.frame?.map (onFrame path) := by
  cases node <;> rfl

theorem forms_map :
    (node.map false onForm onFrame path).forms false path =
      (node.forms false path).map fun entry => (entry.1, onForm entry.1 entry.2) := by
  rw [forms, forms, nodes_map, List.filterMap_map, List.map_filterMap]
  refine List.filterMap_congr ?_
  intro entry _
  simp only [Function.comp_apply, form?_map, Option.map_map]
  rfl

theorem frames_map :
    (node.map false onForm onFrame path).frames path =
      (node.frames path).map fun entry => (entry.1, onFrame entry.1 entry.2) := by
  rw [frames, frames, nodes_map, List.filterMap_map, List.map_filterMap]
  refine List.filterMap_congr ?_
  intro entry _
  simp only [Function.comp_apply, frame?_map, Option.map_map]
  rfl

end Map

/-- Two changes of everything, one after the other, are one change. -/
theorem map_map (onForm laterForm : Path → Form → Form) (onFrame laterFrame : Path → Frame → Frame) (path : Path)
    (node : Node) : (node.map false onForm onFrame path).map false laterForm laterFrame path =
      node.map false (fun place content => laterForm place (onForm place content))
        (fun place frame => laterFrame place (onFrame place frame)) path := by
  have members {entries : List (String × Node)} (place : Path)
      (ih : ∀ entry ∈ entries, ∀ path, (entry.2.map false onForm onFrame path).map false laterForm laterFrame path =
        entry.2.map false (fun place content => laterForm place (onForm place content))
          (fun place frame => laterFrame place (onFrame place frame)) path) :
      mapMembers false laterForm laterFrame place (mapMembers false onForm onFrame place entries) =
        mapMembers false (fun place content => laterForm place (onForm place content))
          (fun place frame => laterFrame place (onFrame place frame)) place entries := by
    simp only [mapMembers_eq, List.map_map]
    exact List.map_congr_left fun entry inside => Prod.ext rfl (ih entry inside _)
  induction node using Node.induction generalizing path with
  | form content => rfl
  | collection frame progress entries ih => rw [map, map, map, members path ih]
  | series frame template siblings _ ih =>
      rw [map, map, map, mapSiblings_eq, mapSiblings_eq, mapSiblings_eq, zipIdx_map_zipIdx, List.map_map]
      refine congrArg _ (List.map_congr_left fun entry inside => ?_)
      simp only [Function.comp_apply, Sibling.isPristine_mk, Sibling.members_mk, Bool.false_and, Bool.false_eq_true,
        if_false]
      rw [members _ (ih entry.1 (List.fst_mem_of_mem_zipIdx inside))]

/-- What is listed beneath a branch is listed in the node. -/
theorem mem_nodes_of_branch {path : Path} {node : Node} {branch : List String × Node}
    (inside : branch ∈ node.branches) {entry : Path × Node}
    (listed : entry ∈ branch.2.nodes false (path.extend ⟨branch.1⟩)) : entry ∈ node.nodes false path := by
  rw [nodes_eq]
  exact List.mem_cons_of_mem _ (List.mem_flatMap.mpr ⟨branch, inside, listed⟩)

theorem mem_nodes_self (path : Path) (node : Node) : (path, node) ∈ node.nodes false path := by
  rw [nodes_eq]
  exact List.mem_cons_self

section Same

variable {liveOnly : Bool} {onForm onFormThere : Path → Form → Form} {onFrame onFrameThere : Path → Frame → Frame}
variable {above path : Path} {node : Node}

/-- Changes that do the same to everything that a node holds of itself, the one behind a path and the other one
without it, do the same to the node. -/
theorem map_extend (same : ∀ entry ∈ node.nodes false path,
      (∀ content ∈ entry.2.form?, onFormThere (above.extend entry.1) content = onForm entry.1 content) ∧
        ∀ frame ∈ entry.2.frame?, onFrameThere (above.extend entry.1) frame = onFrame entry.1 frame) :
    node.map liveOnly onFormThere onFrameThere (above.extend path) = node.map liveOnly onForm onFrame path := by
  induction node using Node.induction generalizing path with
  | form content => exact congrArg Node.form ((same _ (mem_nodes_self _ _)).1 content rfl)
  | collection frame progress members ih =>
      rw [map, map, (same _ (mem_nodes_self _ _)).2 frame rfl, mapMembers_eq, mapMembers_eq]
      refine congrArg _ (List.map_congr_left fun entry inside => Prod.ext rfl ?_)
      have branch : ([entry.1], entry.2) ∈ (Node.collection frame progress members).branches :=
        mem_branches_collection.mpr ⟨entry.1, rfl, inside⟩
      rw [Path.extend_join]
      exact ih entry inside fun listed there => same listed (mem_nodes_of_branch branch there)
  | series frame template siblings _ ih =>
      rw [map, map, (same _ (mem_nodes_self _ _)).2 frame rfl, mapSiblings_eq, mapSiblings_eq]
      refine congrArg _ (List.map_congr_left fun entry inside => ?_)
      have stands : siblings[entry.2]? = some entry.1 := List.mem_zipIdx_iff_getElem?.mp inside
      split
      · rfl
      · rw [mapMembers_eq, mapMembers_eq]
        refine congrArg _ (List.map_congr_left fun member memberInside => Prod.ext rfl ?_)
        have branch : ([indexText entry.2, member.1], member.2) ∈
            (Node.series frame template siblings).branches :=
          mem_branches_series.mpr ⟨entry.2, entry.1, member.1, stands, rfl, memberInside⟩
        rw [Path.extend_join, Path.extend_join]
        refine ih entry.1 (List.mem_of_getElem? stands) member memberInside fun listed there => ?_
        rw [Path.join_join] at there
        exact same listed (mem_nodes_of_branch branch there)

theorem map_id : node.map liveOnly (fun _ content => content) (fun _ frame => frame) path = node := by
  have members (place : Path) {entries : List (String × Node)}
      (ih : ∀ entry ∈ entries, ∀ path,
        entry.2.map liveOnly (fun _ content => content) (fun _ frame => frame) path = entry.2) :
      mapMembers liveOnly (fun _ content => content) (fun _ frame => frame) place entries = entries := by
    rw [mapMembers_eq]
    exact Formwork.map_eq_self_iff.mpr fun entry inside => Prod.ext rfl (ih entry inside _)
  induction node using Node.induction generalizing path with
  | form content => rfl
  | collection frame progress entries ih => rw [map, members path fun entry inside path => ih entry inside]
  | series frame template siblings _ ih =>
      rw [map, mapSiblings_eq]
      refine congrArg _ (Eq.trans (List.map_congr_left fun entry inside => ?_) (List.zipIdx_map_fst 0 siblings))
      rw [members _ fun member there path => ih entry.1 (List.fst_mem_of_mem_zipIdx inside) member there, ite_self]
      cases entry.1
      rfl

/-- A change that leaves everything as it is that a node holds of itself leaves the node as it is. -/
theorem map_eq_self_of_nodes (same : ∀ entry ∈ node.nodes false path,
      (∀ content ∈ entry.2.form?, onForm entry.1 content = content) ∧
        ∀ frame ∈ entry.2.frame?, onFrame entry.1 frame = frame) :
    node.map false onForm onFrame path = node := by
  rw [← path.root_extend]
  exact (map_extend fun entry listed => by rw [Path.root_extend]; exact same entry listed).trans map_id

end Same

/-- A change that leaves every form and every frame as it is leaves the node as it is. -/
theorem map_eq_self_iff {onForm : Path → Form → Form} {onFrame : Path → Frame → Frame} {path : Path}
    {node : Node} : node.map false onForm onFrame path = node ↔
      (∀ entry ∈ node.forms false path, onForm entry.1 entry.2 = entry.2) ∧
        ∀ entry ∈ node.frames path, onFrame entry.1 entry.2 = entry.2 := by
  constructor
  · intro same
    have sameForms := forms_map onForm onFrame path node
    have sameFrames := frames_map onForm onFrame path node
    rw [same] at sameForms sameFrames
    exact ⟨fun entry inside => congrArg Prod.snd (Formwork.map_eq_self_iff.mp sameForms.symm entry inside),
      fun entry inside => congrArg Prod.snd (Formwork.map_eq_self_iff.mp sameFrames.symm entry inside)⟩
  · rintro ⟨sameForm, sameFrame⟩
    refine map_eq_self_of_nodes fun entry listed => ⟨?_, ?_⟩
    · intro content isForm
      refine sameForm (entry.1, content) (List.mem_filterMap.mpr ⟨entry, listed, ?_⟩)
      exact congrArg (Option.map _) (Option.mem_def.mp isForm)
    · intro frame isFrame
      refine sameFrame (entry.1, frame) (List.mem_filterMap.mpr ⟨entry, listed, ?_⟩)
      exact congrArg (Option.map _) (Option.mem_def.mp isFrame)

theorem forms_refresh (lookup : Lookup) (path : Path) (node : Node) :
    (node.refresh lookup path).forms false path =
      (node.forms false path).map fun entry => (entry.1, entry.2.refresh lookup entry.1) :=
  forms_map ..

theorem forms_latch (lookup : Lookup) (path : Path) (node : Node) :
    (node.latch lookup path).forms false path =
      (node.forms false path).map fun entry => (entry.1, entry.2.latch lookup entry.1) :=
  forms_map ..

theorem frames_latch (lookup : Lookup) (path : Path) (node : Node) :
    (node.latch lookup path).frames path =
      (node.frames path).map fun entry => (entry.1, entry.2.latch lookup entry.1) :=
  frames_map ..

/-- Deriving the flags of latched forms a second time changes nothing. -/
theorem refresh_latch_refresh (lookup : Lookup) (path : Path) (node : Node) :
    ((node.refresh lookup path).latch lookup path).refresh lookup path =
      (node.refresh lookup path).latch lookup path := by
  refine map_eq_self_iff.mpr ⟨fun entry listed => ?_, fun _ _ => rfl⟩
  rw [forms_latch, forms_refresh, List.map_map] at listed
  obtain ⟨old, -, rfl⟩ := List.mem_map.mp listed
  simp only [Function.comp_apply, Form.refresh_latch, Form.refresh_refresh]

theorem latch_latch (lookup : Lookup) (path : Path) (node : Node) :
    (node.latch lookup path).latch lookup path = node.latch lookup path := by
  refine map_eq_self_iff.mpr ⟨?_, ?_⟩
  · intro entry listed
    rw [forms_latch] at listed
    obtain ⟨old, -, rfl⟩ := List.mem_map.mp listed
    exact Form.latch_latch lookup old.1 old.2
  · intro entry listed
    rw [frames_latch] at listed
    obtain ⟨old, -, rfl⟩ := List.mem_map.mp listed
    exact Frame.latch_latch lookup old.1 old.2

/-! ## What conditions can read -/

/-- A view of all fields at and beneath a node. -/
def views {α : Type} (view : Field → α) (path : Path) (node : Node) : List (Path × α) :=
  (node.fields path).map fun entry => (entry.1, view entry.2)

theorem views_eq {α : Type} (view : Field → α) (path : Path) (node : Node) :
    node.views view path =
      (node.forms false path).flatMap fun entry => Member.views view entry.1 entry.2.members := by
  rw [views, fields, List.map_flatMap]
  rfl

/-- A change of every form does not change a view that it does not change in any form. -/
theorem views_map {α : Type} {view : Field → α} {onForm : Path → Form → Form}
    (keeps : ∀ place content,
      Member.views view place (onForm place content).members = Member.views view place content.members)
    (onFrame : Path → Frame → Frame) (path : Path) (node : Node) :
    (node.map false onForm onFrame path).views view path = node.views view path := by
  rw [views_eq, views_eq, forms_map, List.flatMap_map]
  exact List.flatMap_congr fun entry _ => keeps entry.1 entry.2

/-! ## What touches messages only -/

/-- The change of every form at and beneath a node does not depend on where the node stands. -/
theorem map_const (liveOnly : Bool) (change : Form → Form) (path other : Path) (node : Node) :
    node.map liveOnly (fun _ content => change content) (fun _ frame => frame) path =
      node.map liveOnly (fun _ content => change content) (fun _ frame => frame) other := by
  have root (place : Path) : node.map liveOnly (fun _ content => change content) (fun _ frame => frame) place =
      node.map liveOnly (fun _ content => change content) (fun _ frame => frame) .root := by
    conv_lhs => rw [← place.extend_root]
    exact map_extend fun _ _ => ⟨fun _ _ => rfl, fun _ _ => rfl⟩
  rw [root path, root other]

theorem mapForms_eq (change : Form → Form) (path : Path) (node : Node) :
    node.mapForms change = node.map false (fun _ content => change content) (fun _ frame => frame) path :=
  map_const false change .root path node

/-- The forms after a change of every form. -/
theorem forms_mapForms (change : Form → Form) (path : Path) (node : Node) :
    (node.mapForms change).forms false path =
      (node.forms false path).map fun entry => (entry.1, change entry.2) := by
  rw [mapForms_eq change path, forms_map]

theorem frames_mapForms (change : Form → Form) (path : Path) (node : Node) :
    (node.mapForms change).frames path = node.frames path := by
  rw [mapForms_eq change path, frames_map]
  exact List.map_id _

theorem mapForms_collection (change : Form → Form) (frame : Frame) (progress : Option Progress)
    (members : List (String × Node)) :
    (Node.collection frame progress members).mapForms change =
      .collection frame progress (members.map fun entry => (entry.1, entry.2.mapForms change)) := by
  simp only [mapForms_eq change .root, map, mapMembers_eq]
  exact congrArg _ (List.map_congr_left fun entry _ => by rw [map_const false change _ .root])

theorem mapForms_series (change : Form → Form) (frame : Frame) (template : List (String × Node))
    (siblings : List Sibling) :
    (Node.series frame template siblings).mapForms change =
      .series frame template (siblings.map fun sibling => .mk sibling.isPristine
        (sibling.members.map fun entry => (entry.1, entry.2.mapForms change))) := by
  simp only [mapForms_eq change .root, map, mapSiblings_eq, mapMembers_eq, Bool.false_and,
    Bool.false_eq_true, if_false]
  conv_rhs => rw [← List.zipIdx_map_fst 0 siblings, List.map_map]
  refine congrArg _ (List.map_congr_left ?_)
  intro entry _
  refine congrArg _ (List.map_congr_left ?_)
  intro member _
  rw [map_const false change _ .root]

theorem branches_mapForms (change : Form → Form) (node : Node) :
    (node.mapForms change).branches =
      node.branches.map fun branch => (branch.1, branch.2.mapForms change) := by
  rw [mapForms, branches_map]
  exact List.map_congr_left fun branch _ => Prod.ext rfl (map_const false change _ .root branch.2)

/-- The way along some segments is the same after a change of every form. -/
theorem next?_mapForms (change : Form → Form) (segments : List String) (node : Node) :
    (node.mapForms change).next? segments =
      (node.next? segments).map fun branch => (branch.1, branch.2.mapForms change) := by
  rw [next?, next?, branches_mapForms, List.findSome?_map, List.map_findSome?]
  refine congrArg (List.findSome? · node.branches) (funext fun branch => ?_)
  rw [Function.comp_apply, Function.comp_apply]
  split
  · rfl
  · rfl

/-- The nodes on the way along some segments are changed where they stand. -/
theorem lineage_mapForms (change : Form → Form) (segments : List String) (node : Node) :
    (node.mapForms change).lineage segments =
      (node.lineage segments).map fun entry => (entry.1, entry.2.mapForms change) := by
  induction node using branchInduction generalizing segments with
  | step node ih =>
      rw [lineage_eq, lineage_eq segments node, next?_mapForms, List.map_cons]
      cases next : node.next? segments with
      | none => rfl
      | some branch =>
          obtain ⟨outer, inside, found⟩ := List.exists_of_findSome?_eq_some next
          obtain ⟨-, same⟩ := Option.ite_none_right_eq_some.mp found
          cases same
          exact congrArg _ (ih outer inside _)

theorem get?_mapForms (change : Form → Form) (segments : List String) (node : Node) :
    (node.mapForms change).get? segments = (node.get? segments).map (mapForms change) := by
  rw [get?, get?, lineage_mapForms, List.findSome?_map, List.map_findSome?]
  refine congrArg (List.findSome? · (node.lineage segments)) (funext fun entry => ?_)
  obtain ⟨remaining, inner⟩ := entry
  cases remaining with
  | nil => rfl
  | cons name rest => rfl

/-- The form on the way along some segments is changed, and the same names remain. -/
theorem formAt?_mapForms (change : Form → Form) (segments : List String) (node : Node) :
    (node.mapForms change).formAt? segments =
      (node.formAt? segments).map fun entry => (entry.1, change entry.2) := by
  rw [formAt?, formAt?, lineage_mapForms, List.findSome?_map, List.map_findSome?]
  refine congrArg (List.findSome? · (node.lineage segments)) (funext fun entry => ?_)
  obtain ⟨remaining, inner⟩ := entry
  cases inner with
  | form content => rfl
  | collection frame progress members => rfl
  | series frame template siblings => rfl

theorem mapForms_change (change : Form → Form) (onForm : Path → Form → Form)
    (keeps : ∀ path content, change (onForm path content) = change content) (liveOnly : Bool)
    (path : Path) (node : Node) :
    (node.map liveOnly onForm (fun _ frame => frame) path).mapForms change = node.mapForms change := by
  induction node using Node.induction generalizing path with
  | form content => exact congrArg Node.form (keeps path content)
  | collection frame progress members ih =>
      rw [map, mapForms_collection, mapForms_collection, mapMembers_eq, List.map_map]
      exact congrArg _ (List.map_congr_left fun entry inside => by simp [ih entry inside])
  | series frame template siblings _ ih =>
      rw [map, mapForms_series, mapForms_series, mapSiblings_eq, List.map_map]
      conv_rhs => rw [← List.zipIdx_map_fst 0 siblings, List.map_map]
      refine congrArg _ (List.map_congr_left ?_)
      intro entry inside
      simp only [Function.comp_apply, Sibling.isPristine_mk, Sibling.members_mk]
      split
      · rfl
      · rw [mapMembers_eq, List.map_map]
        refine congrArg _ (List.map_congr_left ?_)
        intro member memberInside
        simp [ih entry.1 (List.fst_mem_of_mem_zipIdx inside) member memberInside]

theorem mapForms_along (erase : Form → Form) {change : List String → Node → Node}
    (keeps : ∀ segments node, (change segments node).mapForms erase = node.mapForms erase)
    (segments : List String) (node : Node) :
    (node.along change segments).mapForms erase = node.mapForms erase := by
  induction node using Node.induction generalizing segments with
  | form content => exact keeps segments _
  | collection frame progress members ih =>
      rw [along, keeps, mapForms_collection, mapForms_collection, alongMembers_eq]
      cases segments with
      | nil => rfl
      | cons first rest =>
          exact congrArg _ (Assoc.map_modify (fun entry inside => by simp [ih entry inside]) first)
  | series frame template siblings _ ih =>
      cases segments with
      | nil => rw [along, keeps]
      | cons index rest =>
          rw [along, keeps, mapForms_series, mapForms_series]
          cases canonicalIndex? index with
          | none => rfl
          | some position =>
              dsimp only
              rw [alongSiblings_eq]
              refine congrArg _ (map_modify_eq (fun sibling inside => ?_) position)
              rw [Sibling.isPristine_mk, Sibling.members_mk, alongMembers_eq]
              cases rest with
              | nil => rfl
              | cons name rest =>
                  exact congrArg _ (Assoc.map_modify (fun entry there => by
                    simp [ih sibling inside entry there]) name)

theorem forms_clearErrors (path : Path) (node : Node) :
    node.clearErrors.forms false path =
      (node.forms false path).map fun entry => (entry.1, entry.2.clearErrors) :=
  forms_mapForms ..

theorem clearErrors_clearErrors (node : Node) : node.clearErrors.clearErrors = node.clearErrors :=
  mapForms_change Form.clearErrors (fun _ => Form.clearErrors)
    (fun _ content => content.clearErrors_clearErrors) false .root node

theorem clearErrors_validate (path : Path) (node : Node) :
    (node.validate path).clearErrors = node.clearErrors := by
  refine mapForms_change Form.clearErrors _ (fun place content => ?_) true path node
  split
  · rfl
  · exact content.clearErrors_validate place

theorem clearErrors_modifyForm {change : List String → Form → Form}
    (keeps : ∀ names content, (change names content).clearErrors = content.clearErrors)
    (segments : List String) (node : Node) :
    (node.modifyForm change segments).clearErrors = node.clearErrors := by
  refine mapForms_along Form.clearErrors (fun names inner => ?_) segments node
  cases inner with
  | form content => exact congrArg Node.form (keeps names content)
  | collection frame progress members => rfl
  | series frame template siblings => rfl

/-- A view that leaves messages out is the same without them. -/
theorem views_clearErrors {α : Type} {view : Field → α} (keeps : ∀ entry, view entry.clearErrors = view entry)
    (path : Path) (node : Node) : node.clearErrors.views view path = node.views view path := by
  rw [clearErrors, mapForms_eq Form.clearErrors path]
  refine views_map (fun place content => ?_) _ path node
  rw [Form.clearErrors_eq]
  exact Member.views_clearAll keeps place content.members

/-! ## Visited steps -/

theorem forms_markPrefilled (path : Path) (node : Node) :
    node.markPrefilled.forms false path = node.forms false path := by
  induction node using Node.induction generalizing path with
  | form content => rfl
  | collection frame progress members ih =>
      rw [markPrefilled, forms_eq rfl, forms_eq rfl, markPrefilledAll_eq]
      simp only [branches, List.map_map, List.flatMap_map]
      exact List.flatMap_congr fun entry inside => ih entry inside _
  | series frame template siblings _ _ => rfl

theorem frames_markPrefilled (path : Path) (node : Node) :
    node.markPrefilled.frames path = node.frames path := by
  induction node using Node.induction generalizing path with
  | form content => rfl
  | collection frame progress members ih =>
      rw [markPrefilled, frames_eq, frames_eq, markPrefilledAll_eq]
      simp only [branches, List.map_map, List.flatMap_map]
      exact congrArg _ (List.flatMap_congr fun entry inside => ih entry inside _)
  | series frame template siblings _ _ => rfl

end Formwork.Node
