import Formwork.Proofs.Node.Places

/-!
# Listings of a node

The face of a node is what it holds by itself (`Node.Face`). A survey goes through a node in the order of
rendering and takes something from every face, which it is told the path of (`Node.survey`). What a change
leaves in every face where it stood, it leaves in the whole survey: this is said once here for a change of
everything (`survey_map`), for a change along a path (`survey_along`), for a node that is put in the place of
another one (`survey_modify`), and for the marks of siblings (`survey_touch`). The first two are cases of a law for
any relation of lists that goes with joining them (`related_map`, `related_along`). If the other node shows
something else, only the part of the survey that belongs to its place changes (`exists_survey_modify`).

A listing is a survey that looks at forms and frames only (`Node.listing`). So it is kept as well by a move to a
step (`listing_goTo`), which changes nothing but the progress and what is known of the validity of fields.
-/

set_option autoImplicit false

namespace Formwork.Node

open Formwork.Text

/-! ## Surveys -/

/-- What a node holds by itself, without what stands beneath it; a series holds the marks of its siblings, which
tell which of them are pristine. -/
inductive Face where
  | form (content : Form)
  | collection (frame : Frame) (progress : Option Progress) (size : Nat)
  | series (frame : Frame) (marks : List Bool)

def face : Node → Face
  | .form content => .form content
  | .collection frame progress members => .collection frame progress members.length
  | .series frame _ siblings => .series frame (siblings.map Sibling.isPristine)

/-- A face with its form or frame changed. -/
def Face.map (onForm : Form → Form) (onFrame : Frame → Frame) : Face → Face
  | .form content => .form (onForm content)
  | .collection frame progress size => .collection (onFrame frame) progress size
  | .series frame marks => .series (onFrame frame) marks

/-- What is gathered from numbered items changes only where an item is replaced. -/
theorem exists_flatMap_set {α β : Type} (gather : β × Nat → List α) {items : List β} {index : Nat}
    (inside : index < items.length) :
    ∃ front back, ∀ item, (items.set index item).zipIdx.flatMap gather = front ++ gather (item, index) ++ back := by
  refine ⟨(items.take index).zipIdx.flatMap gather, ((items.drop (index + 1)).zipIdx (index + 1)).flatMap gather,
    fun item => ?_⟩
  have short : (items.take index).length = index := List.length_take_of_le (Nat.le_of_lt inside)
  rw [List.set_eq_take_append_cons_drop, if_pos inside, List.zipIdx_append, List.flatMap_append, short,
    List.zipIdx_cons, List.flatMap_cons, Nat.zero_add, List.append_assoc]

/-- A sibling that is replaced by one with its mark leaves all marks as they are. -/
theorem isPristine_set {siblings : List Sibling} {position : Nat} {sibling : Sibling}
    (there : siblings[position]? = some sibling) (members : List (String × Node)) :
    (siblings.set position (.mk sibling.isPristine members)).map Sibling.isPristine =
      siblings.map Sibling.isPristine := by
  have mark : (siblings.map Sibling.isPristine)[position]? = some sibling.isPristine := by
    rw [List.getElem?_map, there, Option.map_some]
  obtain ⟨inside, same⟩ := List.getElem?_eq_some_iff.mp mark
  rw [List.map_set, Sibling.isPristine_mk, ← same, List.set_getElem_self]

/-! ## Related lists -/

/-- A relation of lists that goes with joining them. -/
structure Joins {α : Type} (related : List α → List α → Prop) : Prop where
  refl : ∀ items, related items items
  trans : ∀ {first second third}, related first second → related second third → related first third
  append : ∀ {first second others more}, related first second → related others more →
    related (first ++ others) (second ++ more)

theorem joins_eq {α : Type} : @Joins α (· = ·) := ⟨fun _ => rfl, Eq.trans, fun first rest => first ▸ rest ▸ rfl⟩

namespace Joins

variable {α : Type} {related : List α → List α → Prop} (joins : Joins related)
include joins

/-- What is gathered from the same items in related ways is related. -/
theorem flatMap {β : Type} {first second : β → List α} {items : List β}
    (relates : ∀ item ∈ items, related (first item) (second item)) :
    related (items.flatMap first) (items.flatMap second) := by
  induction items with
  | nil => exact joins.refl []
  | cons item rest ih =>
      obtain ⟨here, later⟩ := List.forall_mem_cons.mp relates
      rw [List.flatMap_cons, List.flatMap_cons]
      exact joins.append here (ih later)

/-- What is gathered from entries is related after a change at a key if the change relates each part of it. -/
theorem flatMap_modify {β : Type} {gather : String × β → List α} {change : β → β} {entries : List (String × β)}
    (relates : ∀ entry ∈ entries, related (gather (entry.1, change entry.2)) (gather entry)) (key : String) :
    related ((Assoc.modify key change entries).flatMap gather) (entries.flatMap gather) := by
  induction entries with
  | nil => exact joins.refl []
  | cons entry rest ih =>
      obtain ⟨here, later⟩ := List.forall_mem_cons.mp relates
      rw [Assoc.modify]
      split
      · rw [List.flatMap_cons, List.flatMap_cons]
        exact joins.append here (joins.refl _)
      · rw [List.flatMap_cons, List.flatMap_cons]
        exact joins.append (joins.refl _) (ih later)

end Joins

section Survey

variable {α : Type} (take : Path → Face → List α)

/-- What is taken from the faces of all nodes at and beneath a node, in the order of rendering. -/
def survey (path : Path) (node : Node) : List α :=
  (node.nodes false path).flatMap fun (place, inner) => take place inner.face

theorem survey_eq (path : Path) (node : Node) :
    node.survey take path = take path node.face ++
      node.branches.flatMap fun branch => branch.2.survey take (path.extend ⟨branch.1⟩) := by
  rw [survey, nodes_eq, List.flatMap_cons, List.flatMap_assoc]
  rfl

theorem survey_form (path : Path) (content : Form) :
    (Node.form content).survey take path = take path (.form content) := by
  rw [survey_eq]
  exact List.append_nil _

theorem survey_collection (path : Path) (frame : Frame) (progress : Option Progress)
    (members : List (String × Node)) :
    (Node.collection frame progress members).survey take path =
      take path (.collection frame progress members.length) ++
        members.flatMap fun entry => entry.2.survey take (path.join entry.1) := by
  rw [survey_eq, branches, List.flatMap_map]
  rfl

theorem survey_series (path : Path) (frame : Frame) (template : List (String × Node))
    (siblings : List Sibling) :
    (Node.series frame template siblings).survey take path =
      take path (.series frame (siblings.map Sibling.isPristine)) ++
        siblings.zipIdx.flatMap fun entry => entry.1.members.flatMap fun member =>
          member.2.survey take ((path.join (indexText entry.2)).join member.1) := by
  rw [survey_eq, branches, List.flatMap_assoc]
  refine congrArg _ (List.flatMap_congr fun entry _ => ?_)
  rw [List.flatMap_map]
  exact List.flatMap_congr fun member _ => by rw [Path.join_join]

variable {take}

section Related

variable {related : List α → List α → Prop} (joins : Joins related)
include joins

/-- A change of everything relates surveys if it relates what is taken from each face. -/
theorem related_map {onForm : Path → Form → Form} {onFrame : Path → Frame → Frame}
    (relates : ∀ here place shown,
      related (take place (Face.map (onForm here) (onFrame here) shown)) (take place shown))
    (liveOnly : Bool) (here path : Path) (node : Node) :
    related ((node.map liveOnly onForm onFrame here).survey take path) (node.survey take path) := by
  induction node using Node.induction generalizing here path with
  | form content =>
      rw [map, survey_form, survey_form]
      exact relates here path (.form content)
  | collection frame progress members ih =>
      rw [map, survey_collection, survey_collection, mapMembers_eq, List.length_map, List.flatMap_map]
      exact joins.append (relates here path (.collection frame progress members.length))
        (joins.flatMap fun entry inside => ih entry inside _ _)
  | series frame template siblings _ ih =>
      rw [map, survey_series, survey_series, isPristine_mapSiblings, mapSiblings_eq, zipIdx_map_zipIdx,
        List.flatMap_map]
      refine joins.append (relates here path (.series frame (siblings.map Sibling.isPristine)))
        (joins.flatMap fun entry inside => ?_)
      dsimp only
      rw [Sibling.members_mk]
      split
      · exact joins.refl _
      · rw [mapMembers_eq, List.flatMap_map]
        exact joins.flatMap fun member there => ih entry.1 (List.fst_mem_of_mem_zipIdx inside) member there _ _

/-- A change along a path relates the whole surveys if it relates those of every node on the way. -/
theorem related_along {change : List String → Node → Node}
    (relates : ∀ segments inner path,
      related ((change segments inner).survey take path) (inner.survey take path))
    (segments : List String) (path : Path) (node : Node) :
    related ((node.along change segments).survey take path) (node.survey take path) := by
  have members {entries : List (String × Node)} (rest : List String) (place : Path)
      (ih : ∀ entry ∈ entries, ∀ segments path,
        related ((entry.2.along change segments).survey take path) (entry.2.survey take path)) :
      related ((alongMembers change rest entries).flatMap fun entry => entry.2.survey take (place.join entry.1))
        (entries.flatMap fun entry => entry.2.survey take (place.join entry.1)) := by
    rw [alongMembers_eq]
    cases rest with
    | nil => exact joins.refl _
    | cons first rest => exact joins.flatMap_modify (fun entry inside => ih entry inside rest _) first
  induction node using Node.induction generalizing segments path with
  | form content => exact relates segments _ path
  | collection frame progress entries ih =>
      have size : (alongMembers change segments entries).length = entries.length := by
        rw [alongMembers_eq]
        cases segments with
        | nil => rfl
        | cons first rest => simpa [Assoc.keys] using congrArg List.length (Assoc.keys_modify first _ entries)
      rw [along]
      refine joins.trans (relates segments _ path) ?_
      rw [survey_collection, survey_collection, size]
      exact joins.append (joins.refl _)
        (members segments path fun entry inside segments path => ih entry inside segments path)
  | series frame template siblings _ ih =>
      cases segments with
      | nil =>
          rw [along]
          exact relates [] _ path
      | cons index rest =>
          rw [along]
          refine joins.trans (relates (index :: rest) _ path) ?_
          cases canonicalIndex? index with
          | none => exact joins.refl _
          | some position =>
              dsimp only
              rw [survey_series, survey_series, isPristine_alongSiblings, alongSiblings_eq, zipIdx_modify,
                List.flatMap_map]
              refine joins.append (joins.refl _) (joins.flatMap fun entry inside => ?_)
              dsimp only
              split
              · exact members rest _ (ih entry.1 (List.fst_mem_of_mem_zipIdx inside))
              · exact joins.refl _

end Related

/-- A change of everything keeps a survey if it keeps what is taken from each face. -/
theorem survey_map {onForm : Path → Form → Form} {onFrame : Path → Frame → Frame}
    (keeps : ∀ here place shown, take place (Face.map (onForm here) (onFrame here) shown) = take place shown)
    (liveOnly : Bool) (here path : Path) (node : Node) :
    (node.map liveOnly onForm onFrame here).survey take path = node.survey take path :=
  related_map joins_eq keeps liveOnly here path node

/-- A change along a path that keeps the survey of every node on the way keeps the whole survey. -/
theorem survey_along {change : List String → Node → Node}
    (keeps : ∀ segments inner path, (change segments inner).survey take path = inner.survey take path)
    (segments : List String) (path : Path) (node : Node) :
    (node.along change segments).survey take path = node.survey take path :=
  related_along joins_eq keeps segments path node

/-- A node with the same survey may be put in the place of another one. -/
theorem survey_modify {segments : List String} {node inner moved : Node}
    (stands : node.get? segments = some inner)
    (same : ∀ path, moved.survey take path = inner.survey take path) (path : Path) :
    (node.modify (fun _ => moved) segments).survey take path = node.survey take path := by
  rw [modify_eq_along stands]
  refine survey_along (fun rest other place => ?_) segments path node
  split
  · rename_i here
    rw [here.2]
    exact same place
  · rfl

/-- A node that is put in the place of another one changes the part of a survey that belongs to this place. -/
theorem exists_survey_modify {segments : List String} {node inner : Node} (found : node.get? segments = some inner)
    (path : Path) : ∃ front back, ∀ moved, (node.modify (fun _ => moved) segments).survey take path =
      front ++ moved.survey take (path.extend ⟨segments⟩) ++ back := by
  induction node using Node.induction generalizing segments path with
  | form content =>
      cases segments with
      | nil => exact ⟨[], [], fun moved => by rw [modify_nil, Path.extend_nil, List.nil_append, List.append_nil]⟩
      | cons name rest => rw [get?_cons] at found; cases found
  | collection frame progress members ih =>
      cases segments with
      | nil => exact ⟨[], [], fun moved => by rw [modify_nil, Path.extend_nil, List.nil_append, List.append_nil]⟩
      | cons name rest =>
          rw [get?_cons, next?_collection] at found
          obtain ⟨⟨_, outer⟩, next, below⟩ := Option.bind_eq_some_iff.mp found
          obtain ⟨_, isMember, same⟩ := Option.map_eq_some_iff.mp next
          cases same
          obtain ⟨before, after, split⟩ := Assoc.exists_modify_eq isMember
          obtain ⟨front, back, inserted⟩ := ih _ (Assoc.mem_of_get?_eq_some isMember) below (path.join name)
          refine ⟨take path (.collection frame progress (before.length + (after.length + 1))) ++
            before.flatMap (fun entry => entry.2.survey take (path.join entry.1)) ++ front,
            back ++ after.flatMap (fun entry => entry.2.survey take (path.join entry.1)), fun moved => ?_⟩
          rw [modify_collection, survey_collection, split, List.length_append, List.length_cons, List.flatMap_append,
            List.flatMap_cons]
          dsimp only
          rw [inserted moved, Path.join_eq_extend, Path.extend_append]
          simp only [List.append_assoc]
          rfl
  | series frame template siblings _ ih =>
      cases segments with
      | nil => exact ⟨[], [], fun moved => by rw [modify_nil, Path.extend_nil, List.nil_append, List.append_nil]⟩
      | cons index rest =>
          rw [get?_cons, next?_series] at found
          cases rest with
          | nil => cases found
          | cons name rest =>
              obtain ⟨⟨_, outer⟩, next, below⟩ := Option.bind_eq_some_iff.mp found
              obtain ⟨position, read, next⟩ := Option.bind_eq_some_iff.mp next
              obtain ⟨sibling, there, next⟩ := Option.bind_eq_some_iff.mp next
              obtain ⟨_, isMember, same⟩ := Option.map_eq_some_iff.mp next
              cases same
              obtain rfl : index = indexText position := canonicalIndex?_eq_some_iff.mp read
              obtain ⟨before, after, split⟩ := Assoc.exists_modify_eq isMember
              obtain ⟨front, back, inserted⟩ := ih sibling (List.mem_of_getElem? there) _
                (Assoc.mem_of_get?_eq_some isMember) below ((path.join (indexText position)).join name)
              obtain ⟨outerFront, outerBack, around⟩ := exists_flatMap_set
                (fun entry : Sibling × Nat => entry.1.members.flatMap fun member =>
                  member.2.survey take ((path.join (indexText entry.2)).join member.1))
                (List.getElem?_eq_some_iff.mp there).1
              refine ⟨take path (.series frame (siblings.map Sibling.isPristine)) ++ outerFront ++
                  before.flatMap (fun member =>
                    member.2.survey take ((path.join (indexText position)).join member.1)) ++ front,
                back ++ after.flatMap (fun member =>
                  member.2.survey take ((path.join (indexText position)).join member.1)) ++ outerBack,
                fun moved => ?_⟩
              rw [modify_sibling there, survey_series, isPristine_set there, around]
              dsimp only
              rw [Sibling.members_mk, split, List.flatMap_append, List.flatMap_cons]
              dsimp only
              rw [inserted moved, Path.join_join, Path.extend_append]
              simp only [List.append_assoc]
              rfl

/-- A survey that does not look at the marks of siblings is the same after some of them were touched. -/
theorem survey_touch
    (blind : ∀ path frame marks others, take path (.series frame marks) = take path (.series frame others))
    (segments : List String) (path : Path) (node : Node) :
    (node.touch segments).survey take path = node.survey take path := by
  refine survey_along (fun rest inner path => ?_) segments path node
  split
  · split
    · rename_i frame template siblings _ position _
      rw [survey_series, survey_series, blind path frame _ (siblings.map Sibling.isPristine), zipIdx_modify,
        List.flatMap_map]
      refine congrArg _ (List.flatMap_congr fun entry _ => ?_)
      dsimp only
      split
      · cases entry.1
        rfl
      · rfl
    · rfl
  · rfl

/-- A change of the form on the way keeps a survey if it keeps what is taken from the form. -/
theorem survey_modifyForm {change : List String → Form → Form}
    (keeps : ∀ place names content, take place (.form (change names content)) = take place (.form content))
    (segments : List String) (path : Path) (node : Node) :
    (node.modifyForm change segments).survey take path = node.survey take path := by
  refine survey_along (fun names inner place => ?_) segments path node
  cases inner with
  | form content => rw [survey_form, survey_form, keeps]
  | collection frame progress members => rfl
  | series frame template siblings => rfl

section Validity

variable (keeps : ∀ here place content, take place (.form (Form.validate here content)) = take place (.form content))
include keeps

/-- A check of fields keeps a survey if it keeps what is taken from each form. -/
theorem survey_validate (here path : Path) (node : Node) :
    (node.validate here).survey take path = node.survey take path := by
  refine survey_map (fun here place shown => ?_) true here path node
  cases shown with
  | form content =>
      dsimp only [Face.map]
      split
      · rfl
      · exact keeps here place content
  | collection frame progress size => rfl
  | series frame marks => rfl

theorem survey_validateAt (place : Path) (segments : List String) (path : Path) (node : Node) :
    (node.modify (Node.validate place) segments).survey take path = node.survey take path := by
  refine survey_along (fun rest inner here => ?_) segments path node
  split
  · exact survey_validate keeps place here inner
  · rfl

/-- Going to a step checks some fields, so it keeps a survey that such a check keeps and that does not look at the
progress through steps. -/
theorem survey_goTo
    (blind : ∀ path frame first second size,
      take path (.collection frame first size) = take path (.collection frame second size))
    {place : Path} {index : Nat} {node moved : Node} {failures : List (Path × List String)}
    (gone : node.goTo place index = .ok (moved, failures)) (path : Path) :
    moved.survey take path = node.survey take path := by
  obtain ⟨frame, progress, members, reached, first, last, rfl, rfl⟩ := goTo_eq_ok gone
  rw [survey_collection, survey_collection, List.flatMap_def, List.flatMap_def, length_validateSteps,
    blind path frame (some reached) (some progress)]
  exact congrArg (fun lists => _ ++ List.flatten lists)
    (map_validateSteps (fun name inner => survey_validate keeps _ _ inner) first last members)

end Validity

end Survey

/-! ## Listings of forms and frames -/

variable {α : Type} (ofForm : Path → Form → List α) (ofFrame : Path → Frame → List α)

/-- What a listing takes from the node itself. -/
def listedHere (path : Path) : Node → List α
  | .form content => ofForm path content
  | .collection frame _ _ => ofFrame path frame
  | .series frame _ _ => ofFrame path frame

/-- What is taken from all forms and frames at and beneath a node, in the order of rendering. -/
def listing (path : Path) (node : Node) : List α :=
  (node.nodes false path).flatMap fun (place, inner) => inner.listedHere ofForm ofFrame place

/-- What a listing takes from a face. -/
def Face.listed (path : Path) : Face → List α
  | .form content => ofForm path content
  | .collection frame _ _ => ofFrame path frame
  | .series frame _ => ofFrame path frame

theorem listing_eq_survey (path : Path) (node : Node) :
    node.listing ofForm ofFrame path = node.survey (Face.listed ofForm ofFrame) path := by
  refine List.flatMap_congr fun entry _ => ?_
  obtain ⟨place, inner⟩ := entry
  cases inner <;> rfl

theorem listing_collection (path : Path) (frame : Frame) (progress : Option Progress)
    (members : List (String × Node)) :
    (Node.collection frame progress members).listing ofForm ofFrame path = ofFrame path frame ++
      members.flatMap fun entry => entry.2.listing ofForm ofFrame (path.join entry.1) := by
  simp only [listing_eq_survey, survey_collection]
  rfl

/-- A listing that takes nothing from frames is one of all forms. -/
theorem listing_eq_forms (path : Path) (node : Node) : node.listing ofForm (fun _ _ => []) path =
    (node.forms false path).flatMap fun entry => ofForm entry.1 entry.2 := by
  rw [listing, forms, List.filterMap_eq_flatMap_toList, List.flatMap_assoc]
  refine List.flatMap_congr fun entry _ => ?_
  obtain ⟨place, inner⟩ := entry
  cases inner with
  | form content => exact (List.append_nil _).symm
  | collection frame progress members => rfl
  | series frame template siblings => rfl

/-! ### What keeps a listing -/

variable {ofForm ofFrame}

/-- A change of everything keeps a listing if it keeps what is taken from each form and frame. -/
theorem listing_map {onForm : Path → Form → Form} {onFrame : Path → Frame → Frame}
    (keepsForm : ∀ here place content, ofForm place (onForm here content) = ofForm place content)
    (keepsFrame : ∀ here place frame, ofFrame place (onFrame here frame) = ofFrame place frame)
    (liveOnly : Bool) (here path : Path) (node : Node) :
    (node.map liveOnly onForm onFrame here).listing ofForm ofFrame path = node.listing ofForm ofFrame path := by
  rw [listing_eq_survey, listing_eq_survey]
  refine survey_map (fun here place shown => ?_) liveOnly here path node
  cases shown with
  | form content => exact keepsForm here place content
  | collection frame progress size => exact keepsFrame here place frame
  | series frame marks => exact keepsFrame here place frame

/-- A change along a path that keeps the listing of every node on the way keeps the whole listing. -/
theorem listing_along {change : List String → Node → Node}
    (keeps : ∀ segments inner path,
      (change segments inner).listing ofForm ofFrame path = inner.listing ofForm ofFrame path)
    (segments : List String) (path : Path) (node : Node) :
    (node.along change segments).listing ofForm ofFrame path = node.listing ofForm ofFrame path := by
  simp only [listing_eq_survey] at keeps ⊢
  exact survey_along keeps segments path node

/-- A node with the same listing may be put in the place of another one. -/
theorem listing_modify {segments : List String} {node inner moved : Node}
    (stands : node.get? segments = some inner)
    (same : ∀ path, moved.listing ofForm ofFrame path = inner.listing ofForm ofFrame path) (path : Path) :
    (node.modify (fun _ => moved) segments).listing ofForm ofFrame path = node.listing ofForm ofFrame path := by
  simp only [listing_eq_survey] at same ⊢
  exact survey_modify stands same path

/-- A change of the form on the way keeps a listing if it keeps what is taken from the form. -/
theorem listing_modifyForm {change : List String → Form → Form}
    (keeps : ∀ place names content, ofForm place (change names content) = ofForm place content)
    (segments : List String) (path : Path) (node : Node) :
    (node.modifyForm change segments).listing ofForm ofFrame path = node.listing ofForm ofFrame path := by
  rw [listing_eq_survey, listing_eq_survey]
  exact survey_modifyForm keeps segments path node

theorem listing_touch (segments : List String) (path : Path) (node : Node) :
    (node.touch segments).listing ofForm ofFrame path = node.listing ofForm ofFrame path := by
  rw [listing_eq_survey, listing_eq_survey]
  exact survey_touch (fun _ _ _ _ => rfl) segments path node

/-- Going to a step checks some fields and keeps every listing that the check of a form keeps. -/
theorem listing_goTo (keeps : ∀ here place content, ofForm place (Form.validate here content) = ofForm place content)
    {place : Path} {index : Nat} {node moved : Node} {failures : List (Path × List String)}
    (gone : node.goTo place index = .ok (moved, failures)) (path : Path) :
    moved.listing ofForm ofFrame path = node.listing ofForm ofFrame path := by
  rw [listing_eq_survey, listing_eq_survey]
  exact survey_goTo keeps (fun _ _ _ _ _ => rfl) gone path

end Formwork.Node
