import Formwork.Proofs.Node.Redrawing

/-!
# Entering values

To enter something at the end of some segments is to change the form on the way and to touch the siblings on the way
(`Node.enter`). What is entered at the ends of different segments can be entered in either order, as long as this
is so within one form (`Node.enter_comm`): the marks of siblings are taken away in either order too.
-/

set_option autoImplicit false

namespace Formwork

/-- Two changes of items can be made in either order, unless they are made at one position and do not go with each
other. -/
theorem modify_comm {α : Type} {items : List α} {first second : α → α} {position other : Nat}
    (agree : position = other → ∀ item ∈ items, first (second item) = second (first item)) :
    (items.modify other second).modify position first = (items.modify position first).modify other second := by
  refine List.ext_getElem? fun index => ?_
  simp only [List.getElem?_modify]
  cases found : items[index]? with
  | none => rfl
  | some item =>
      by_cases here : position = index
      · by_cases there : other = index
        · simp [here, there, agree (here.trans there.symm) item (List.mem_of_getElem? found)]
        · simp [here, there]
      · simp [here]

/-- Two changes of the item at one position are one change. -/
theorem modify_modify {α : Type} (items : List α) (position : Nat) (first second : α → α) :
    (items.modify position second).modify position first = items.modify position fun item => first (second item) := by
  refine List.ext_getElem? fun index => ?_
  simp only [List.getElem?_modify, Option.map_eq_map, Option.map_map]
  refine congrArg (Option.map · _) (funext fun item => ?_)
  by_cases here : position = index <;> simp [here]

namespace Node

open Formwork.Text

variable (onForm : List String → Form → Form)

/-- The change of a form that stands on the way, when the given segments remain. -/
def changeHere : List String → Node → Node
  | names, .form content => .form (onForm names content)
  | _, other => other

/-- The sibling of a series that is on the way is touched. -/
def touchHere : List String → Node → Node
  | index :: _, .series frame template siblings =>
    match canonicalIndex? index with
    | some position => .series frame template (siblings.modify position Sibling.touched)
    | none => .series frame template siblings
  | _, other => other

/-- Changes the form on the way along some segments and touches the siblings on the way. -/
def enter (segments : List String) (node : Node) : Node := (node.modifyForm onForm segments).touch segments

/-- `enter` for the members of a collection or sibling. -/
def enterMember (segments : List String) (members : List (String × Node)) : List (String × Node) :=
  match segments with
  | [] => members
  | name :: rest => Assoc.modify name (enter onForm rest) members

theorem enter_form (segments : List String) (content : Form) :
    (Node.form content).enter onForm segments = .form (onForm segments content) := by
  cases segments <;> rfl

/-- A change of the form on the way, and then the marks of the siblings on the way. -/
theorem enterMember_eq (segments : List String) (members : List (String × Node)) :
    alongMembers touchHere segments (alongMembers (changeHere onForm) segments members) =
      enterMember onForm segments members := by
  rw [alongMembers_eq, alongMembers_eq]
  cases segments with
  | nil => rfl
  | cons name rest => exact Assoc.modify_modify name _ _ members

theorem enter_collection (segments : List String) (frame : Frame) (progress : Option Progress)
    (members : List (String × Node)) : (Node.collection frame progress members).enter onForm segments =
      .collection frame progress (enterMember onForm segments members) := by
  rw [← enterMember_eq]
  cases segments <;> rfl

theorem enter_series_nil (frame : Frame) (template : List (String × Node)) (siblings : List Sibling) :
    (Node.series frame template siblings).enter onForm [] = .series frame template siblings := rfl

/-- The sibling with the index is touched, and the change is carried on into it. -/
theorem enter_series (index : String) (rest : List String) (frame : Frame) (template : List (String × Node))
    (siblings : List Sibling) : (Node.series frame template siblings).enter onForm (index :: rest) =
      .series frame template (match canonicalIndex? index with
        | some position => siblings.modify position fun sibling => .mk false (enterMember onForm rest sibling.members)
        | none => siblings) := by
  have step : (Node.series frame template siblings).enter onForm (index :: rest) =
      touchHere (index :: rest) (.series frame template (match canonicalIndex? index with
        | some position => alongSiblings touchHere rest position (match canonicalIndex? index with
          | some position => alongSiblings (changeHere onForm) rest position siblings
          | none => siblings)
        | none => match canonicalIndex? index with
          | some position => alongSiblings (changeHere onForm) rest position siblings
          | none => siblings)) := rfl
  rw [step]
  cases read : canonicalIndex? index with
  | none => simp only [touchHere, read]
  | some position =>
      simp only [touchHere, read, alongSiblings_eq, modify_modify, Sibling.isPristine_mk, Sibling.members_mk,
        enterMember_eq]
      rfl

/-- What is entered at the ends of different segments can be entered in either order. -/
theorem enter_comm {first second : List String → Form → Form}
    (apart : ∀ names others content, names ≠ others →
      first names (second others content) = second others (first names content))
    {segments others : List String} (differ : segments ≠ others) (node : Node) :
    (node.enter second others).enter first segments = (node.enter first segments).enter second others := by
  have members {entries : List (String × Node)} {segments others : List String} (differ : segments ≠ others)
      (ih : ∀ entry ∈ entries, ∀ {segments others : List String}, segments ≠ others →
        (entry.2.enter second others).enter first segments = (entry.2.enter first segments).enter second others) :
      enterMember first segments (enterMember second others entries) =
        enterMember second others (enterMember first segments entries) := by
    match segments, others with
    | [], _ => rfl
    | _ :: _, [] => rfl
    | name :: rest, other :: further =>
        exact Assoc.modify_comm fun same entry inside => ih entry inside fun tails => differ (by rw [same, tails])
  induction node using Node.induction generalizing segments others with
  | form content =>
      simp only [enter_form]
      exact congrArg Node.form (apart segments others content differ)
  | collection frame progress entries ih =>
      simp only [enter_collection]
      exact congrArg _ (members differ ih)
  | series frame template siblings _ ih =>
      match segments, others with
      | [], [] => exact absurd rfl differ
      | [], _ :: _ => rw [enter_series_nil, enter_series, enter_series_nil]
      | _ :: _, [] => rw [enter_series_nil, enter_series, enter_series_nil]
      | index :: rest, other :: further =>
          simp only [enter_series]
          refine congrArg (Node.series frame template) ?_
          cases read : canonicalIndex? index with
          | none => rfl
          | some position =>
              cases readOther : canonicalIndex? other with
              | none => rfl
              | some place =>
                  refine modify_comm fun same sibling inside => ?_
                  have sameIndex : index = other := by
                    rw [canonicalIndex?_eq_some_iff.mp read, canonicalIndex?_eq_some_iff.mp readOther, same]
                  refine congrArg (Sibling.mk false) (members (fun tails => differ ?_) (ih sibling inside))
                  rw [sameIndex, tails]

/-- What is entered in a node is entered in the redrawn node, if redrawing the form goes with the change. -/
theorem redraw_enter {drawForm : Form → Form} {drawFrame : Frame → Frame}
    (agree : ∀ names content, drawForm (onForm names content) = onForm names (drawForm content))
    (segments : List String) (node : Node) : (node.enter onForm segments).redraw drawForm drawFrame =
      (node.redraw drawForm drawFrame).enter onForm segments := by
  have change (names : List String) (inner : Node) : (changeHere onForm names inner).redraw drawForm drawFrame =
      changeHere onForm names (inner.redraw drawForm drawFrame) := by
    cases inner with
    | form content => exact congrArg Node.form (agree names content)
    | collection frame progress members => rfl
    | series frame template siblings => rfl
  have touch (rest : List String) (inner : Node) : (touchHere rest inner).redraw drawForm drawFrame =
      touchHere rest (inner.redraw drawForm drawFrame) := by
    match rest, inner with
    | [], _ => rfl
    | _ :: _, .form content => rfl
    | _ :: _, .collection frame progress members => rfl
    | index :: rest, .series frame template siblings =>
        rw [redraw_series, touchHere, touchHere]
        cases canonicalIndex? index with
        | none => exact redraw_series ..
        | some position =>
            refine (redraw_series ..).trans (congrArg _ (map_modify_comm (fun sibling _ => ?_) position))
            cases sibling
            rfl
  exact (redraw_along touch segments _).trans (congrArg (along touchHere segments) (redraw_along change segments node))

end Node

end Formwork
