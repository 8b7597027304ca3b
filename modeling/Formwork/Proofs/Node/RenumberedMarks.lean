import Formwork.Proofs.Node.Marks
import Formwork.Proofs.Node.Renumbering

/-!
# Marks of renumbered siblings

When the siblings of a series come under other indices, they take their marks and those of the siblings inside of
them with them, and all other siblings keep theirs (`Node.markings_renumbered`). What leads beneath a pristine sibling
is told apart by the place of the series: the siblings on the way to the series count, and so do those inside of
what is put in its place (`Node.offered_modify_beneath`). So a field leads beneath a pristine sibling where it lands
exactly if it did where it was (`Node.exists_offered_renumbered`).
-/

set_option autoImplicit false

namespace Formwork.Node

open Formwork.Text

/-- What stands beneath a series stands in a member of one of its siblings. -/
theorem Stands.of_series {frame : Frame} {template : List (String × Node)} {siblings : List Sibling}
    {rest : List String} {found : Node} (stands : (Node.series frame template siblings).Stands rest found) :
    (rest = [] ∧ found = .series frame template siblings) ∨ ∃ index sibling name outer others,
      rest = indexText index :: name :: others ∧ siblings[index]? = some sibling ∧
        (name, outer) ∈ sibling.members ∧ outer.Stands others found := by
  cases stands with
  | here => exact .inl ⟨rfl, rfl⟩
  | sibling there inside below => exact .inr ⟨_, _, _, _, _, rfl, there, inside, below⟩

/-- Nothing is offered at the place of a node itself. -/
theorem not_offered_nil (node : Node) : ¬ node.Offered [] := by
  rintro ⟨front, -, -, -, index, -, rest, same, -⟩
  cases front <;> cases same

section Modify

variable {change : Node → Node} {name first : String} {others rest : List String} {outer : Node}

/-- What is offered in a changed collection is what is offered in its members, one of which is changed. -/
theorem offered_modify_member {frame : Frame} {progress : Option Progress} {members : List (String × Node)}
    (regular : RegularMembers members) (inside : (name, outer) ∈ members)
    (later : ((Node.collection frame progress members).modify change (first :: others)).Regular) :
    (if name = first then outer.modify change others else outer).Regular ∧
      (((Node.collection frame progress members).modify change (first :: others)).Offered (name :: rest) ↔
        (if name = first then outer.modify change others else outer).Offered rest) := by
  rw [modify_collection] at later ⊢
  have there := @RegularMembers.mem_modify (modify change others) name first outer members regular inside
  exact ⟨later.collection.inner _ there, offered_member later there rest⟩

/-- What is offered in a changed series is what is offered in its siblings, a member of one of which is changed. -/
theorem offered_modify_sibling {frame : Frame} {template : List (String × Node)} {siblings : List Sibling}
    {index : Nat} {sibling : Sibling} (regular : RegularMembers sibling.members)
    (there : siblings[index]? = some sibling) (inside : (name, outer) ∈ sibling.members)
    (later : ((Node.series frame template siblings).modify change (indexText index :: first :: others)).Regular) :
    (if name = first then outer.modify change others else outer).Regular ∧
      (((Node.series frame template siblings).modify change (indexText index :: first :: others)).Offered
        (indexText index :: name :: rest) ↔ sibling.isPristine = true ∨
          (if name = first then outer.modify change others else outer).Offered rest) := by
  rw [modify_sibling there] at later ⊢
  have member := @RegularMembers.mem_modify (modify change others) name first outer sibling.members regular inside
  have bound : index < siblings.length := (List.getElem?_eq_some_iff.mp there).1
  exact ⟨(later.series (List.mem_set bound _)).inner _ member,
    offered_sibling later (List.getElem?_set_self bound) member rest⟩

variable {node : Node} (regular : node.Regular)
include regular

/-- What leads beneath a changed node leads beneath a pristine sibling on the way to this node or inside of it. -/
theorem offered_modify_beneath {segments : List String} {inner : Node} (stands : node.Stands segments inner)
    (later : (node.modify change segments).Regular) (rest : List String) :
    (node.modify change segments).Offered (segments ++ rest) ↔ node.Offered segments ∨ (change inner).Offered rest := by
  induction stands with
  | here node =>
      rw [modify_nil, List.nil_append]
      exact (or_iff_right (not_offered_nil node)).symm
  | @member _ _ _ name outer _ segments inside _ ih =>
      obtain ⟨inner', offered⟩ := @offered_modify_member change name name segments (segments ++ rest) _ _ _ _
        regular.collection inside later
      rw [if_pos rfl] at inner' offered
      rw [List.cons_append, offered, offered_member regular inside]
      exact ih (regular.collection.inner _ inside) inner'
  | @sibling _ _ _ index _ name outer _ segments there inside _ ih =>
      have members := regular.series (List.mem_of_getElem? there)
      obtain ⟨inner', offered⟩ := @offered_modify_sibling change name name segments (segments ++ rest) _ _ _ _ _ _
        members there inside later
      rw [if_pos rfl] at inner' offered
      rw [List.cons_append, List.cons_append, offered, offered_sibling regular there inside, or_assoc]
      exact or_congr_right (ih (members.inner _ inside) inner')

/-- The same without a change. -/
theorem offered_beneath {segments : List String} {inner : Node} (stands : node.Stands segments inner)
    (rest : List String) : node.Offered (segments ++ rest) ↔ node.Offered segments ∨ inner.Offered rest := by
  have offered := @offered_modify_beneath id node regular segments inner stands
  rw [modify_id] at offered
  exact offered regular rest

/-- What stands apart from a changed node is offered if it was before. -/
theorem offered_modify_apart {segments front : List String} {found : Node} (stands : node.Stands front found)
    (later : (node.modify change segments).Regular) (notBeneath : ¬ segments <+: front)
    (notAbove : ¬ front <+: segments) : (node.modify change segments).Offered front ↔ node.Offered front := by
  induction stands generalizing segments with
  | here node => exact absurd List.nil_prefix notAbove
  | @member _ _ _ name outer _ rest inside _ ih =>
      cases segments with
      | nil => exact absurd List.nil_prefix notBeneath
      | cons first others =>
          obtain ⟨inner', offered⟩ := @offered_modify_member change name first others rest _ _ _ _
            regular.collection inside later
          rw [offered, offered_member regular inside]
          split
          · rename_i same
            subst same
            rw [if_pos rfl] at inner'
            simp only [List.cons_prefix_cons, true_and] at notBeneath notAbove
            exact ih (regular.collection.inner _ inside) inner' notBeneath notAbove
          · exact Iff.rfl
  | @sibling frame template siblings index sibling name outer _ rest there inside _ ih =>
      have members := regular.series (List.mem_of_getElem? there)
      rw [offered_sibling regular there inside]
      cases segments with
      | nil => exact absurd List.nil_prefix notBeneath
      | cons first others =>
          by_cases here : first = indexText index
          · subst here
            cases others with
            | nil => exact absurd (by simp) notBeneath
            | cons second others =>
                obtain ⟨inner', offered⟩ := @offered_modify_sibling change name second others rest _ _ _ _ _ _
                  members there inside later
                rw [offered]
                refine or_congr_right ?_
                split
                · rename_i same
                  subst same
                  rw [if_pos rfl] at inner'
                  simp only [List.cons_prefix_cons, true_and] at notBeneath notAbove
                  exact ih (members.inner _ inside) inner' notBeneath notAbove
                · exact Iff.rfl
          · rw [modify_series] at later ⊢
            refine offered_sibling later ?_ inside rest
            rw [List.getElem?_mapIdx, there, Option.map_some, if_neg here]

/-- Changing a node keeps the marks of all siblings outside of it. -/
theorem markings_modify_outside (change : Node → Node) {path : Path} {segments front : List String} {outer : Frame}
    {template : List (String × Node)} {siblings : List Sibling} {index : Nat} {mark : Bool}
    {members : List (String × Node)} (stands : node.Stands front (.series outer template siblings))
    (there : siblings[index]? = some (.mk mark members)) (notBeneath : ¬ segments <+: front) :
    (path.extend ⟨front ++ [indexText index]⟩, mark) ∈ (node.modify change segments).markings path := by
  by_cases above : front <+: segments
  · obtain ⟨rest, rfl⟩ := above
    have here := @Stands.modify_above _ regular change _ rest _ stands
    obtain ⟨number, rest, rfl⟩ : ∃ number below, rest = number :: below := by
      refine List.exists_cons_of_ne_nil fun empty => notBeneath ⟨[], ?_⟩
      simp [empty]
    rw [modify_series] at here
    -- the change is made in the members of a sibling, beneath its mark
    obtain ⟨kept, changed⟩ : ∃ kept, (if number = indexText index then
        Sibling.mk mark (rest.head?.elim members fun name => Assoc.modify name (modify change rest.tail) members)
        else .mk mark members) = .mk mark kept := by
      split
      · exact ⟨_, rfl⟩
      · exact ⟨_, rfl⟩
    refine mem_markings_iff.mpr ⟨front, outer, template, _, index, kept, rfl, here, ?_⟩
    rw [List.getElem?_mapIdx, there, Option.map_some]
    exact congrArg some changed
  · exact mem_markings_iff.mpr ⟨front, outer, template, siblings, index, members, rfl,
      stands.modify_apart regular notBeneath above, there⟩

end Modify

section Series

variable {node : Node} (regular : node.Regular) {path : Path} {segments : List String} {frame : Frame}
variable {template : List (String × Node)} {siblings : List Sibling}
variable (stands : node.Stands segments (.series frame template siblings))
variable {other : Frame} {copies : List (String × Node)} {others : List Sibling} {move : Nat → Option Nat}
include regular stands

/-- Siblings of a series that is not beneath another keep their indices when those of the other change. -/
theorem renumber_outside {front : List String} {outer : Frame} {ownTemplate : List (String × Node)}
    {ownSiblings : List Sibling} (standsThere : node.Stands front (.series outer ownTemplate ownSiblings))
    (notBeneath : ¬ segments <+: front) (index : Nat) (move : Nat → Option Nat) :
    (path.extend ⟨front ++ [indexText index]⟩).renumber (path.extend ⟨segments⟩) move =
      some (path.extend ⟨front ++ [indexText index]⟩) := by
  refine Path.renumber_apart (fun rest same => ?_) move
  rw [Path.extend_append] at same
  have fronts : front ++ [indexText index] = segments ++ rest.segments :=
    congrArg Path.segments (Path.extend_injective same)
  -- no series stands at the path of a sibling
  rcases List.prefix_concat_iff.mp ⟨rest.segments, fronts.symm⟩ with rfl | before
  · rcases (standsThere.beneath regular stands).of_series with ⟨short, -⟩ | ⟨_, _, _, _, _, short, -⟩
    · cases short
    · injection short with _ nothing
      cases nothing
  · exact notBeneath before

variable (moves : ∀ number sibling moved, siblings[number]? = some sibling → move number = some moved →
  others[moved]? = some sibling)
include moves

/-- A series whose siblings come under other indices keeps the marks of these siblings and of everything in them,
and all other siblings keep theirs. -/
theorem markings_renumbered {place target : Path} {mark : Bool} (listed : (place, mark) ∈ node.markings path)
    (lands : place.renumber (path.extend ⟨segments⟩) move = some target) :
    (target, mark) ∈ (node.modify (fun _ => .series other copies others) segments).markings path := by
  obtain ⟨front, outer, ownTemplate, ownSiblings, index, members, rfl, standsThere, there⟩ := mem_markings_iff.mp listed
  by_cases beneath : segments <+: front
  · obtain ⟨rest, rfl⟩ := beneath
    rcases (stands.beneath regular standsThere).of_series with
      ⟨rfl, same⟩ | ⟨number, sibling, name, inner, below, rfl, thereAbove, inside, standsBelow⟩
    · cases same
      rw [List.append_nil, ← Path.extend_append, Path.renumber_sibling] at lands
      obtain ⟨moved, moves', rfl⟩ := Option.map_eq_some_iff.mp lands
      refine mem_markings_iff.mpr ⟨segments, other, copies, others, moved, members, Path.extend_append .., ?_,
        moves index _ moved there moves'⟩
      have here := @Stands.modify_beneath _ regular (fun _ => .series other copies others) _ _ _ _ stands (.here _)
      rwa [List.append_nil] at here
    · rw [List.append_assoc, ← Path.extend_append, List.cons_append, Path.renumber_sibling] at lands
      obtain ⟨moved, moves', rfl⟩ := Option.map_eq_some_iff.mp lands
      have standsNow : (Node.series other copies others).Stands (indexText moved :: name :: below)
          (.series outer ownTemplate ownSiblings) :=
        .sibling (moves number sibling moved thereAbove moves') inside standsBelow
      refine mem_markings_iff.mpr ⟨segments ++ (indexText moved :: name :: below), outer, ownTemplate, ownSiblings,
        index, members, ?_, stands.modify_beneath regular standsNow, there⟩
      rw [Path.extend_append, List.append_assoc]
      rfl
  · obtain rfl := Option.some.inj (lands.symm.trans (renumber_outside regular stands standsThere beneath index move))
    exact markings_modify_outside regular _ standsThere there beneath

/-- A field that comes under another index with its sibling is offered afterwards exactly if it was before. -/
theorem exists_offered_renumbered
    (later : (node.modify (fun _ => .series other copies others) segments).Regular) {place target : Path}
    {field : Field} (listed : (place, field) ∈ node.fields path)
    (lands : place.renumber (path.extend ⟨segments⟩) move = some target) :
    ∃ names named, place = path.extend ⟨names⟩ ∧ target = path.extend ⟨named⟩ ∧
      ((node.modify (fun _ => .series other copies others) segments).Offered named ↔ node.Offered names) := by
  obtain ⟨front, content, names, rfl, standsForm, member⟩ := mem_fields_iff.mp listed
  rcases form_beneath_or_apart regular stands standsForm with
    ⟨number, sibling, name, outer, rest, rfl, there, inside, below⟩ | ⟨notBeneath, notAbove⟩
  · rw [List.append_assoc, ← Path.extend_append, List.cons_append, Path.renumber_sibling] at lands
    obtain ⟨moved, moves', rfl⟩ := Option.map_eq_some_iff.mp lands
    have here := @Stands.modify_beneath _ regular (fun _ => .series other copies others) _ _ _ _ stands (.here _)
    rw [List.append_nil] at here
    have laterSeries := later.stands here
    refine ⟨_, segments ++ (indexText moved :: name :: (rest ++ names)), rfl, Path.extend_append .., ?_⟩
    rw [offered_modify_beneath regular stands later, List.append_assoc, offered_beneath regular stands,
      List.cons_append, List.cons_append, offered_sibling laterSeries (moves _ _ _ there moves') inside,
      offered_sibling (regular.stands stands) there inside]
  · rw [Path.renumber_apart (Path.extend_apart notBeneath notAbove)] at lands
    refine ⟨_, _, rfl, (Option.some.inj lands).symm, ?_⟩
    have standsNow := @Stands.modify_apart _ regular (fun _ => .series other copies others) _ _ _ standsForm
      notBeneath notAbove
    rw [offered_beneath later standsNow, offered_beneath regular standsForm,
      offered_modify_apart regular standsForm later notBeneath notAbove]

end Series

end Formwork.Node
