import Formwork.Proofs.Node.Places

/-!
# What is renumbered with its siblings

When a node is put in the place of another one, what stands beneath that place is what stands beneath the
new node (`Node.Stands.modify_beneath`), and what stands apart from it stays where it is
(`Node.Stands.modify_apart`). So a series whose siblings come under other indices keeps every form and every
field of these siblings, and the index in the path is all that changes (`Node.forms_renumbered`,
`Node.fields_renumbered`).
-/

set_option autoImplicit false

namespace Formwork

open Formwork.Text

/-- The path of a field after the siblings of a series have come under other indices, if its sibling is
still there. A path that leads to no sibling of the series stays as it is. -/
def Path.renumber (path series : Path) (move : Nat → Option Nat) : Option Path :=
  match path.stripFront? series with
  | some ⟨index :: rest⟩ =>
    match canonicalIndex? index with
    | some number => (move number).map fun moved => series.extend ⟨indexText moved :: rest⟩
    | none => some path
  | _ => some path

theorem Path.renumber_sibling (series : Path) (move : Nat → Option Nat) (number : Nat) (rest : List String) :
    (series.extend ⟨indexText number :: rest⟩).renumber series move =
      (move number).map fun moved => series.extend ⟨indexText moved :: rest⟩ := by
  rw [renumber, stripFront?_extend]
  dsimp only
  rw [canonicalIndex?_eq_some_iff.mpr rfl]

theorem Path.renumber_apart {series path : Path} (apart : ∀ rest, path ≠ series.extend rest)
    (move : Nat → Option Nat) : path.renumber series move = some path := by
  unfold renumber
  split
  · rename_i found
    exact absurd (stripFront?_eq_some_iff.mp found) (apart _)
  · rfl

/-- If the indices can be moved back, the path can. -/
theorem Path.renumber_back {path series place : Path} {move back : Nat → Option Nat}
    (returns : ∀ number moved, move number = some moved → back moved = some number)
    (lands : path.renumber series move = some place) : place.renumber series back = some path := by
  have unfolded := lands
  unfold renumber at unfolded
  split at unfolded
  · rename_i index rest found
    split at unfolded
    · rename_i number read
      obtain ⟨moved, moves, rfl⟩ := Option.map_eq_some_iff.mp unfolded
      rw [renumber_sibling, returns number moved moves, stripFront?_eq_some_iff.mp found,
        canonicalIndex?_eq_some_iff.mp read]
      rfl
    · rename_i unread
      injection unfolded with same
      subst same
      unfold renumber
      rw [found]
      dsimp only
      rw [unread]
  · rename_i other
    injection unfolded with same
    subst same
    unfold renumber
    split
    · rename_i index rest found
      exact absurd found (other index rest)
    · rfl

/-- A path is lost only if it leads to a sibling whose index is. -/
theorem Path.exists_of_renumber_eq_none {path series : Path} {move : Nat → Option Nat}
    (lost : path.renumber series move = none) :
    ∃ number rest, path = series.extend ⟨indexText number :: rest⟩ ∧ move number = none := by
  unfold renumber at lost
  split at lost
  · rename_i index rest found
    split at lost
    · rename_i number read
      refine ⟨number, rest, ?_, Option.map_eq_none_iff.mp lost⟩
      rw [stripFront?_eq_some_iff.mp found, canonicalIndex?_eq_some_iff.mp read]
    · cases lost
  · cases lost

/-- Paths beneath places that stand apart are different. -/
theorem Path.extend_apart {path : Path} {segments front names : List String} (notBeneath : ¬ segments <+: front)
    (notAbove : ¬ front <+: segments) (rest : Path) :
    path.extend ⟨front ++ names⟩ ≠ (path.extend ⟨segments⟩).extend rest := by
  intro same
  rw [Path.extend_append] at same
  have fronts : front ++ names = segments ++ rest.segments :=
    congrArg Path.segments (Path.extend_injective same)
  rcases List.prefix_or_prefix_of_prefix ⟨names, rfl⟩ ⟨rest.segments, fronts.symm⟩ with before | behind
  · exact notAbove before
  · exact notBeneath behind

/-- The index of a sibling after another one was put at an index. -/
def openGap (index number : Nat) : Option Nat := some (if number < index then number else number + 1)

/-- The index of a sibling after the one at an index was taken out. -/
def closeGap (index number : Nat) : Option Nat :=
  if number = index then none else some (if number < index then number else number - 1)

/-- The index of a sibling after the last one was taken off. -/
def takeOff (last number : Nat) : Option Nat := if number = last then none else some number

theorem eq_of_closeGap_eq_none {index number : Nat} (lost : closeGap index number = none) : number = index := by
  unfold closeGap at lost
  split at lost
  · assumption
  · cases lost

theorem takeOff_eq_some_iff {last number moved : Nat} :
    takeOff last number = some moved ↔ number = moved ∧ number ≠ last := by
  unfold takeOff
  split <;> simp_all

theorem eq_of_takeOff_eq_none {last number : Nat} (lost : takeOff last number = none) : number = last := by
  unfold takeOff at lost
  split at lost
  · assumption
  · cases lost

/-- Taking out what was put in leaves the indices as they were. -/
theorem closeGap_of_openGap {index number moved : Nat} (opened : openGap index number = some moved) :
    closeGap index moved = some number := by
  unfold openGap at opened
  unfold closeGap
  split at opened
  · cases opened
    rw [if_neg (by omega), if_pos (by assumption)]
  · cases opened
    rw [if_neg (by omega), if_neg (by omega), Nat.add_sub_cancel]

theorem openGap_of_closeGap {index number moved : Nat} (closed : closeGap index number = some moved) :
    openGap index moved = some number := by
  unfold closeGap at closed
  unfold openGap
  split at closed
  · cases closed
  · split at closed
    · cases closed
      rw [if_pos (by assumption)]
    · cases closed
      rw [if_neg (by omega), Nat.sub_add_cancel (by omega)]

theorem getElem?_openGap {α : Type} {items : List α} {index number moved : Nat} {added item : α}
    (stands : items[number]? = some item) (opened : openGap index number = some moved) :
    (items.insertIdx index added)[moved]? = some item := by
  unfold openGap at opened
  rw [List.getElem?_insertIdx]
  split at opened
  · cases opened
    rw [if_pos (by assumption)]
    exact stands
  · cases opened
    rw [if_neg (by omega), if_neg (by omega)]
    exact stands

/-- The siblings behind one that was added, behind another one or at the end, move up by one. -/
theorem getElem?_added {α : Type} {items : List α} {behind : Option Nat} {number moved : Nat} {added item : α}
    (stands : items[number]? = some item)
    (moves : (behind.elim some fun index => openGap (index + 1)) number = some moved) :
    (items.insertIdx (behind.elim items.length (· + 1)) added)[moved]? = some item := by
  cases behind with
  | some index => exact getElem?_openGap stands moves
  | none =>
      obtain rfl : number = moved := Option.some.inj moves
      obtain ⟨inside, -⟩ := List.getElem?_eq_some_iff.mp stands
      rw [Option.elim_none, List.getElem?_insertIdx, if_pos inside]
      exact stands

theorem getElem?_closeGap {α : Type} {items : List α} {index number moved : Nat} {item : α}
    (stands : items[number]? = some item) (closed : closeGap index number = some moved) :
    (items.eraseIdx index)[moved]? = some item := by
  unfold closeGap at closed
  split at closed
  · cases closed
  · injection closed with same
    subst same
    rw [List.getElem?_eraseIdx]
    split
    · exact stands
    · rw [if_neg (by omega), Nat.sub_add_cancel (by omega)]
      exact stands

namespace Node

section Modify

variable {change : Node → Node} {name first : String} {others rest : List String} {outer found : Node}

/-- A change of one of some named nodes leaves each of them under its name. -/
theorem RegularMembers.mem_modify {members : List (String × Node)} (regular : RegularMembers members)
    (inside : (name, outer) ∈ members) :
    (name, if name = first then change outer else outer) ∈ Assoc.modify first change members := by
  rw [Assoc.modify_eq_map regular.nodup]
  exact List.mem_map.mpr ⟨_, inside, rfl⟩

/-- A member of a changed collection stands where it stood, changed if it is the one on the way. -/
theorem stands_modify_member {frame : Frame} {progress : Option Progress} {members : List (String × Node)}
    (regular : RegularMembers members) (inside : (name, outer) ∈ members)
    (below : (if name = first then outer.modify change others else outer).Stands rest found) :
    ((Node.collection frame progress members).modify change (first :: others)).Stands (name :: rest) found := by
  rw [modify_collection]
  exact .member (regular.mem_modify inside) below

/-- A member of a changed sibling stands where it stood, changed if it is the one on the way. -/
theorem stands_modify_sibling {frame : Frame} {template : List (String × Node)} {siblings : List Sibling} {index : Nat}
    {sibling : Sibling} (regular : RegularMembers sibling.members) (there : siblings[index]? = some sibling)
    (inside : (name, outer) ∈ sibling.members)
    (below : (if name = first then outer.modify change others else outer).Stands rest found) :
    ((Node.series frame template siblings).modify change (indexText index :: first :: others)).Stands
      (indexText index :: name :: rest) found := by
  rw [modify_sibling there]
  exact .sibling (List.getElem?_set_self (List.getElem?_eq_some_iff.mp there).1) (regular.mem_modify inside) below

end Modify

variable {node : Node} (regular : node.Regular)
include regular

/-- What stands on the way to a changed node stands where it stood, with the change beneath it. -/
theorem Stands.modify_above {change : Node → Node} {front rest : List String} {found : Node}
    (stands : node.Stands front found) :
    (node.modify change (front ++ rest)).Stands front (found.modify change rest) := by
  induction stands with
  | here node => exact .here _
  | member inside _ ih =>
      refine stands_modify_member regular.collection inside ?_
      rw [if_pos rfl]
      exact ih (regular.collection.inner _ inside)
  | sibling there inside _ ih =>
      have members := regular.series (List.mem_of_getElem? there)
      refine stands_modify_sibling members there inside ?_
      rw [if_pos rfl]
      exact ih (members.inner _ inside)

/-- What stands beneath a changed node stands beneath its place. -/
theorem Stands.modify_beneath {change : Node → Node} {segments rest : List String} {inner found : Node}
    (stands : node.Stands segments inner) (below : (change inner).Stands rest found) :
    (node.modify change segments).Stands (segments ++ rest) found := by
  have here := @Stands.modify_above _ regular change _ [] _ stands
  rw [List.append_nil, modify_nil] at here
  exact here.append below

/-- What neither stands on the way to a changed node nor beneath it stays where it is. -/
theorem Stands.modify_apart {change : Node → Node} {segments front : List String} {found : Node}
    (stands : node.Stands front found) (notBeneath : ¬ segments <+: front) (notAbove : ¬ front <+: segments) :
    (node.modify change segments).Stands front found := by
  induction stands generalizing segments with
  | here node => exact absurd List.nil_prefix notAbove
  | @member _ _ members name outer _ rest inside below ih =>
      cases segments with
      | nil => exact absurd List.nil_prefix notBeneath
      | cons first others =>
          refine stands_modify_member regular.collection inside ?_
          split
          · rename_i same
            subst same
            simp only [List.cons_prefix_cons, true_and] at notBeneath notAbove
            exact ih (regular.collection.inner _ inside) notBeneath notAbove
          · exact below
  | @sibling frame template siblings index sibling name outer _ rest there inside below ih =>
      have members := regular.series (List.mem_of_getElem? there)
      cases segments with
      | nil => exact absurd List.nil_prefix notBeneath
      | cons first others =>
          by_cases here : first = indexText index
          · subst here
            cases others with
            | nil => exact absurd (by simp) notBeneath
            | cons second others =>
                refine stands_modify_sibling members there inside ?_
                split
                · rename_i same
                  subst same
                  simp only [List.cons_prefix_cons, true_and] at notBeneath notAbove
                  exact ih (members.inner _ inside) notBeneath notAbove
                · exact below
          · rw [modify_series]
            refine .sibling ?_ inside below
            rw [List.getElem?_mapIdx, there, Option.map_some, if_neg here]

/-- Putting back the node that was replaced undoes the change. -/
theorem modify_undo {segments : List String} {inner : Node} (stands : node.Stands segments inner) (other : Node) :
    (node.modify (fun _ => other) segments).modify (fun _ => inner) segments = node := by
  have undone {members : List (String × Node)} (regular : RegularMembers members) {name : String} {outer : Node}
      {first second : Node → Node} (inside : (name, outer) ∈ members) (back : second (first outer) = outer) :
      Assoc.modify name second (Assoc.modify name first members) = members := by
    have changed := Assoc.modify_eq_map regular.nodup name first
    have same : Assoc.keys (Assoc.modify name first members) = Assoc.keys members := by
      rw [changed, Assoc.keys, List.map_map]
      rfl
    rw [Assoc.modify_eq_map (same ▸ regular.nodup), changed, List.map_map]
    refine (List.map_congr_left fun entry there => ?_).trans (List.map_id _)
    obtain ⟨key, child⟩ := entry
    by_cases here : key = name
    · subst here
      obtain rfl := regular.unique inside there
      simp [back]
    · simp [here]
  induction stands with
  | here node => rw [modify_nil]
  | member inside _ ih =>
      rw [modify_collection, modify_collection,
        undone regular.collection inside (ih (regular.collection.inner _ inside))]
  | @sibling frame template siblings index sibling name outer _ rest there inside _ ih =>
      have members := regular.series (List.mem_of_getElem? there)
      rw [modify_series, modify_series]
      refine congrArg _ (List.ext_getElem? fun position => ?_)
      rw [List.getElem?_mapIdx, List.getElem?_mapIdx]
      cases found : siblings[position]? with
      | none => rfl
      | some old =>
          by_cases here : indexText index = indexText position
          · obtain rfl := indexText_injective here
            rw [there] at found
            cases found
            obtain ⟨pristine, entries⟩ := sibling
            have back := undone members inside (ih (members.inner _ inside))
            simpa using back
          · simp [here]

section Series

variable {segments : List String} {frame : Frame} {template : List (String × Node)} {siblings : List Sibling}
variable (stands : node.Stands segments (.series frame template siblings))
include stands

/-- A form stands in a sibling of a series, or apart from the series. -/
theorem form_beneath_or_apart {front : List String} {content : Form} (standsForm : node.Stands front (.form content)) :
    (∃ number sibling name outer rest, front = segments ++ indexText number :: name :: rest ∧
      siblings[number]? = some sibling ∧ (name, outer) ∈ sibling.members ∧ outer.Stands rest (.form content)) ∨
    (¬ segments <+: front ∧ ¬ front <+: segments) := by
  by_cases beneath : segments <+: front
  · obtain ⟨rest, rfl⟩ := beneath
    cases stands.beneath regular standsForm with
    | sibling there inside below => exact .inl ⟨_, _, _, _, _, rfl, there, inside, below⟩
  · refine .inr ⟨beneath, ?_⟩
    rintro ⟨rest, rfl⟩
    obtain ⟨-, same⟩ := stands_form_iff.mp (standsForm.beneath regular stands)
    cases same

section Renumbered

variable {other : Frame} {copies : List (String × Node)} {others : List Sibling} {move : Nat → Option Nat}
variable (moves : ∀ number sibling moved, siblings[number]? = some sibling → move number = some moved →
  others[moved]? = some sibling)
include moves

/-- A form in a series whose siblings come under other indices stands where its path leads afterwards, if its sibling
is still there, and a form apart from the series stands where it stood. -/
theorem form_renumbered {front : List String} {content : Form} (standsForm : node.Stands front (.form content)) :
    (∃ landed, (node.modify (fun _ => .series other copies others) segments).Stands landed (.form content) ∧
      ∀ (path : Path) (names : List String), (path.extend ⟨front ++ names⟩).renumber (path.extend ⟨segments⟩) move =
        some (path.extend ⟨landed ++ names⟩)) ∨
    ∀ (path : Path) (names : List String),
      (path.extend ⟨front ++ names⟩).renumber (path.extend ⟨segments⟩) move = none := by
  rcases form_beneath_or_apart regular stands standsForm with
    ⟨number, sibling, name, outer, rest, rfl, there, inside, below⟩ | ⟨notBeneath, notAbove⟩
  · have goes (path : Path) (names : List String) :
        (path.extend ⟨segments ++ indexText number :: name :: rest ++ names⟩).renumber (path.extend ⟨segments⟩) move =
          (move number).map fun moved => path.extend ⟨segments ++ indexText moved :: name :: rest ++ names⟩ := by
      rw [List.append_assoc, ← Path.extend_append, List.cons_append, Path.renumber_sibling]
      refine congrArg (fun landed => Option.map landed (move number)) (funext fun moved => ?_)
      rw [Path.extend_append, List.append_assoc]
      rfl
    cases moved : move number with
    | none =>
        refine .inr fun path names => ?_
        rw [goes, moved]
        rfl
    | some landed =>
        have standsNow : (Node.series other copies others).Stands (indexText landed :: name :: rest) (.form content) :=
          .sibling (moves number sibling landed there moved) inside below
        refine .inl ⟨_, stands.modify_beneath regular standsNow, fun path names => ?_⟩
        rw [goes, moved]
        rfl
  · refine .inl ⟨front, standsForm.modify_apart regular notBeneath notAbove, fun path names => ?_⟩
    exact Path.renumber_apart (Path.extend_apart notBeneath notAbove) move

variable {path place target : Path} (lands : place.renumber (path.extend ⟨segments⟩) move = some target)
include lands

/-- A series whose siblings come under other indices keeps the forms of these siblings, and everything apart from the
series stays where it is. -/
theorem forms_renumbered {content : Form} (listed : (place, content) ∈ node.forms false path) :
    (target, content) ∈ (node.modify (fun _ => .series other copies others) segments).forms false path := by
  obtain ⟨front, rfl, standsForm⟩ := mem_forms_iff.mp listed
  rw [← List.append_nil front] at lands
  rcases form_renumbered regular stands moves standsForm with ⟨landed, standsNow, goes⟩ | lost
  · obtain rfl := Option.some.inj ((goes path []).symm.trans lands)
    rw [List.append_nil]
    exact mem_forms_iff.mpr ⟨landed, rfl, standsNow⟩
  · rw [lost] at lands
    cases lands

/-- The same for fields. -/
theorem fields_renumbered {field : Field} (listed : (place, field) ∈ node.fields path) :
    (target, field) ∈ (node.modify (fun _ => .series other copies others) segments).fields path := by
  obtain ⟨front, content, names, rfl, standsForm, member⟩ := mem_fields_iff.mp listed
  rcases form_renumbered regular stands moves standsForm with ⟨landed, standsNow, goes⟩ | lost
  · obtain rfl := Option.some.inj ((goes path names).symm.trans lands)
    exact mem_fields_iff.mpr ⟨landed, content, names, rfl, standsNow, member⟩
  · rw [lost] at lands
    cases lands

end Renumbered

/-- A field whose path leads into a sibling of a series stands in one of its members. -/
theorem exists_member_of_sibling {path : Path} {number : Nat} {sibling : Sibling}
    (there : siblings[number]? = some sibling) {rest : List String} {field : Field}
    (listed : ((path.extend ⟨segments⟩).extend ⟨indexText number :: rest⟩, field) ∈ node.fields path) :
    ∃ entry ∈ sibling.members, ∃ front content names, entry.2.Stands front (.form content) ∧
      Member.Stands content.members names (.field field) := by
  obtain ⟨front, content, names, same, standsForm, member⟩ := mem_fields_iff.mp listed
  rcases form_beneath_or_apart regular stands standsForm with
    ⟨other, found, name, outer, inner, rfl, thereFound, inside, below⟩ | ⟨notBeneath, notAbove⟩
  · rw [List.append_assoc, ← Path.extend_append] at same
    injection Path.extend_injective same with fronts
    injection fronts with index
    obtain rfl := indexText_injective index
    rw [there] at thereFound
    cases thereFound
    exact ⟨(name, outer), inside, inner, content, names, below, member⟩
  · exact absurd same.symm (Path.extend_apart notBeneath notAbove _)

end Series

end Node

end Formwork
