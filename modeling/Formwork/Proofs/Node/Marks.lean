import Formwork.Proofs.Node.Leaves
import Formwork.Proofs.Node.Listing
import Formwork.Proofs.Node.Moves
import Formwork.Proofs.Node.Ways

/-!
# Marks of pristine siblings

Each sibling of a series is marked as pristine or not. `Node.markings` surveys these marks, and some segments lead
beneath a pristine sibling exactly if one of the marked siblings is on the way (`Node.offered_iff_marked`).

No elementary change sets a mark. Touching takes away the marks of the siblings on the way and leaves all others
(`Node.markings_touch`), and every other change leaves all of them as they are (`Node.Move.fades`).
-/

set_option autoImplicit false

namespace Formwork.Node

open Formwork.Text

/-! ## The survey of marks -/

/-- The marks that a face shows if it is that of a series, each with the path of its sibling. -/
def Face.markings (path : Path) : Face → List (Path × Bool)
  | .series _ marks => marks.zipIdx.map fun entry => (path.join (indexText entry.2), entry.1)
  | _ => []

/-- The marks of all siblings at and beneath a node, each with the path of its sibling. -/
def markings (path : Path) (node : Node) : List (Path × Bool) := node.survey Face.markings path

theorem mem_markings_iff {path place : Path} {mark : Bool} {node : Node} :
    (place, mark) ∈ node.markings path ↔ ∃ front frame template siblings index members,
      place = path.extend ⟨front ++ [indexText index]⟩ ∧ node.Stands front (.series frame template siblings) ∧
        siblings[index]? = some (.mk mark members) := by
  rw [markings, survey, List.mem_flatMap]
  constructor
  · rintro ⟨⟨outer, inner⟩, listed, shown⟩
    obtain ⟨front, rfl, stands⟩ := mem_nodes_iff.mp listed
    cases inner with
    | form content => cases shown
    | collection frame progress members => cases shown
    | series frame template siblings =>
        obtain ⟨⟨own, index⟩, numbered, same⟩ := List.mem_map.mp shown
        cases same
        have marked := List.mk_mem_zipIdx_iff_getElem?.mp numbered
        rw [List.getElem?_map] at marked
        obtain ⟨⟨_, members⟩, there, rfl⟩ := Option.map_eq_some_iff.mp marked
        exact ⟨front, frame, template, siblings, index, members, Path.extend_append path front [indexText index],
          stands, there⟩
  · rintro ⟨front, frame, template, siblings, index, members, rfl, stands, there⟩
    refine ⟨_, mem_nodes_iff.mpr ⟨front, rfl, stands⟩, List.mem_map.mpr ⟨(mark, index), ?_, ?_⟩⟩
    · refine List.mk_mem_zipIdx_iff_getElem?.mpr ?_
      rw [List.getElem?_map, there]
      rfl
    · exact congrArg (·, mark) (Path.extend_append path front [indexText index])

/-- A sibling has one mark. -/
theorem markings_unique {node : Node} (regular : node.Regular) {path place : Path} {first second : Bool}
    (listed : (place, first) ∈ node.markings path) (listedToo : (place, second) ∈ node.markings path) :
    first = second := by
  obtain ⟨front, frame, template, siblings, index, members, rfl, stands, there⟩ := mem_markings_iff.mp listed
  obtain ⟨other, _, _, _, position, _, same, standsToo, thereToo⟩ := mem_markings_iff.mp listedToo
  injection Path.extend_injective same with fronts
  obtain ⟨rfl, last⟩ := List.append_inj' fronts rfl
  injection last with sameIndex
  obtain rfl := indexText_injective sameIndex
  have found := (get?_eq_some_iff regular).mpr stands
  rw [(get?_eq_some_iff regular).mpr standsToo] at found
  cases found
  rw [there] at thereToo
  cases thereToo
  rfl

/-- Some segments lead beneath a pristine sibling exactly if the path of a marked sibling is a beginning of them. -/
theorem offered_iff_marked (path : Path) {node : Node} {segments : List String} : node.Offered segments ↔
    ∃ place, (place, true) ∈ node.markings path ∧ (path.extend ⟨segments⟩).startsWith place = true := by
  constructor
  · rintro ⟨front, frame, template, siblings, index, members, rest, rfl, stands, pristine⟩
    refine ⟨_, mem_markings_iff.mpr ⟨front, frame, template, siblings, index, members, rfl, stands, pristine⟩, ?_⟩
    rw [Path.startsWith_extend, List.isPrefixOf_iff_prefix]
    exact ⟨rest, List.append_assoc front [indexText index] rest⟩
  · rintro ⟨place, marked, around⟩
    obtain ⟨front, frame, template, siblings, index, members, rfl, stands, pristine⟩ := mem_markings_iff.mp marked
    rw [Path.startsWith_extend, List.isPrefixOf_iff_prefix] at around
    obtain ⟨rest, rfl⟩ := around
    exact ⟨front, frame, template, siblings, index, members, rest, List.append_assoc front [indexText index] rest,
      stands, pristine⟩

/-! ## Marks fade -/

/-- Some marks are taken away, and none is set. -/
def Fades (marks later : List (Path × Bool)) : Prop :=
  ∃ keeps : Path → Bool, later = marks.map fun entry => (entry.1, entry.2 && keeps entry.1)

namespace Fades

variable {marks later last : List (Path × Bool)}

theorem of_eq (same : later = marks) : Fades marks later := by
  refine ⟨fun _ => true, same.trans ?_⟩
  simp

theorem trans (first : Fades marks later) (second : Fades later last) : Fades marks last := by
  obtain ⟨keeps, rfl⟩ := first
  obtain ⟨keepsToo, rfl⟩ := second
  refine ⟨fun place => keeps place && keepsToo place, ?_⟩
  rw [List.map_map]
  exact List.map_congr_left fun entry _ => by simp [Bool.and_assoc]

theorem mem_of_marked (fades : Fades marks later) {place : Path} (marked : (place, true) ∈ later) :
    (place, true) ∈ marks := by
  obtain ⟨keeps, rfl⟩ := fades
  obtain ⟨⟨_, mark⟩, listed, same⟩ := List.mem_map.mp marked
  injection same with here both
  obtain ⟨rfl, -⟩ := (Bool.and_eq_true _ _).mp both
  exact here ▸ listed

theorem unmarked (fades : Fades marks later) {place : Path} (touched : (place, false) ∈ marks) :
    (place, false) ∈ later := by
  obtain ⟨keeps, rfl⟩ := fades
  exact List.mem_map.mpr ⟨_, touched, rfl⟩

end Fades

theorem markings_map {onForm : Path → Form → Form} {onFrame : Path → Frame → Frame} (liveOnly : Bool)
    (here path : Path) (node : Node) : (node.map liveOnly onForm onFrame here).markings path = node.markings path := by
  refine survey_map (fun here place shown => ?_) liveOnly here path node
  cases shown <;> rfl

/-- A sibling that is touched keeps its members. -/
theorem branches_touched (frame : Frame) (template : List (String × Node)) (siblings : List Sibling) (position : Nat) :
    (Node.series frame template (siblings.modify position Sibling.touched)).branches =
      (Node.series frame template siblings).branches := by
  rw [branches, branches, zipIdx_modify, List.flatMap_map]
  refine List.flatMap_congr fun entry _ => ?_
  dsimp only
  split
  · cases entry.1
    rfl
  · rfl

/-- A sibling that is touched loses its mark, and no other one does. -/
theorem isPristine_touched {siblings others : List Sibling}
    (same : others.map Sibling.isPristine = siblings.map Sibling.isPristine) (position : Nat) :
    (others.modify position Sibling.touched).map Sibling.isPristine =
      siblings.mapIdx fun index sibling => sibling.isPristine && !decide (position = index) := by
  refine List.ext_getElem? fun index => ?_
  have mark := congrArg (·[index]?) same
  simp only [List.getElem?_map] at mark
  rw [List.getElem?_map, List.getElem?_modify, List.getElem?_mapIdx, Option.map_eq_map, Option.map_map]
  by_cases here : position = index
  · have touched : (Sibling.isPristine ∘ fun sibling => if position = index then sibling.touched else sibling) =
        (fun _ => false) ∘ Sibling.isPristine := by
      funext sibling
      cases sibling
      simp [here, Sibling.touched]
    rw [touched, ← Option.map_map, mark, Option.map_map]
    simp [here, Function.comp_def]
  · simpa [here, Function.comp_def] using mark

/-- Of the siblings of a series, touching takes away the mark of the one that the way leads through. -/
theorem face_touch (segments : List String) (frame : Frame) (template : List (String × Node))
    (siblings : List Sibling) : ((Node.series frame template siblings).touch segments).face =
      .series frame (siblings.mapIdx fun index sibling =>
        sibling.isPristine && !List.isPrefixOf [indexText index] segments) := by
  cases segments with
  | nil =>
      rw [touch, along]
      exact congrArg (Face.series frame) (List.ext_getElem? fun index => by simp)
  | cons first rest =>
      rw [touch, along]
      cases read : canonicalIndex? first with
      | none =>
          have apart (index : Nat) : (indexText index == first) = false := beq_false_of_ne fun same => by
            rw [canonicalIndex?_eq_some_iff.mpr same.symm] at read
            cases read
          simp only [read]
          exact congrArg (Face.series frame) (List.ext_getElem? fun index => by simp [List.isPrefixOf, apart])
      | some position =>
          obtain rfl : first = indexText position := canonicalIndex?_eq_some_iff.mp read
          simp only [read]
          refine congrArg (Face.series frame)
            ((isPristine_touched (isPristine_alongSiblings _ rest position siblings) position).trans ?_)
          refine List.ext_getElem? fun index => ?_
          have sameIndex : (indexText index == indexText position) = decide (position = index) := by
            rw [Bool.eq_iff_iff, beq_iff_eq, decide_eq_true_iff]
            exact ⟨fun same => (indexText_injective same).symm, fun same => congrArg indexText same.symm⟩
          simp [List.isPrefixOf, sameIndex]

/-- The same with the paths of the siblings. -/
theorem markings_touch_here (path : Path) (segments : List String) (node : Node) :
    Face.markings path (node.touch segments).face = (Face.markings path node.face).map fun entry =>
      (entry.1, entry.2 && !(path.extend ⟨segments⟩).startsWith entry.1) := by
  cases node with
  | form content =>
      rw [touch, along]
      cases segments <;> rfl
  | collection frame progress members =>
      rw [touch, along]
      cases segments <;> rfl
  | series frame template siblings =>
      rw [face_touch]
      refine List.ext_getElem? fun index => ?_
      simp only [Face.markings, face, List.getElem?_map, List.getElem?_zipIdx, List.getElem?_mapIdx, Option.map_map]
      refine congrArg (Option.map · _) (funext fun sibling => ?_)
      simp only [Function.comp_apply, Path.join_eq_extend, Path.startsWith_extend, Nat.zero_add]

/-- Touching the siblings on the way keeps all marks but those of the siblings that the way leads through. -/
theorem markings_touch {node : Node} (regular : node.Regular) (path : Path) (segments : List String) :
    (node.touch segments).markings path = (node.markings path).map fun entry =>
      (entry.1, entry.2 && !(path.extend ⟨segments⟩).startsWith entry.1) := by
  induction node using branchInduction generalizing path segments with
  | step node ih =>
      have branches : (node.touch segments).branches = node.branches.map fun branch =>
          (branch.1,
            if branch.1.isPrefixOf segments then branch.2.touch (segments.drop branch.1.length) else branch.2) := by
        refine branches_along (fun inner => ?_) regular.nodup_fronts
        split
        · split
          · exact branches_touched _ _ _ _
          · rfl
        · rfl
      rw [markings, survey_eq, markings_touch_here, branches, List.flatMap_map, markings, survey_eq, List.map_append,
        List.map_flatMap]
      refine congrArg _ (List.flatMap_congr fun branch inside => ?_)
      dsimp only
      split
      · rename_i isFront
        obtain ⟨rest, rfl⟩ := List.isPrefixOf_iff_prefix.mp isFront
        rw [List.drop_left, ← Path.extend_append]
        exact ih branch inside (regular.branch inside) _ rest
      · rename_i apart
        symm
        refine (List.map_congr_left fun entry listed => ?_).trans (List.map_id _)
        obtain ⟨place, mark⟩ := entry
        obtain ⟨front, -, -, -, index, -, rfl, -⟩ := mem_markings_iff.mp listed
        have outside : (branch.1 ++ (front ++ [indexText index])).isPrefixOf segments = false := by
          refine Bool.eq_false_iff.mpr fun isFront => apart ?_
          rw [List.isPrefixOf_iff_prefix] at isFront ⊢
          exact (List.prefix_append _ _).trans isFront
        simp only [Path.extend_append, Path.startsWith_extend, outside, Bool.not_false, Bool.and_true, id_eq]

/-- An elementary change sets no mark. -/
theorem Move.fades {node later : Node} (regular : node.Regular) (move : Move node later) (path : Path) :
    Fades (node.markings path) (later.markings path) := by
  cases move with
  | everywhere forms frames liveOnly here => exact .of_eq (markings_map liveOnly here path node)
  | @onTheWay change forms segments =>
      exact .of_eq (@survey_modifyForm _ Face.markings change (fun _ _ _ => rfl) segments path node)
  | touch segments =>
      exact ⟨fun place => !(path.extend ⟨segments⟩).startsWith place, markings_touch regular path segments⟩
  | validatePart place segments => exact .of_eq (survey_validateAt (fun _ _ _ => rfl) place segments path node)
  | goTo stands gone =>
      exact .of_eq (survey_modify stands (survey_goTo (fun _ _ _ => rfl) (fun _ _ _ _ _ => rfl) gone) path)

/-- No sibling on the way along some segments is pristine after these segments were touched. -/
theorem not_offered_touch {node : Node} (regular : node.Regular) (segments : List String) :
    ¬ (node.touch segments).Offered segments := by
  intro offered
  obtain ⟨place, marked, around⟩ := (offered_iff_marked .root).mp offered
  rw [markings_touch regular] at marked
  obtain ⟨⟨_, mark⟩, -, same⟩ := List.mem_map.mp marked
  injection same with here both
  subst here
  simp [around] at both

end Formwork.Node
