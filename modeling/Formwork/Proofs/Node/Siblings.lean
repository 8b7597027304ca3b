import Formwork.Proofs.Node.Conditions
import Formwork.Proofs.Node.Redrawing

/-!
# One sibling of a series

A sibling is a collection of its own (`Sibling.body`), and what leads to it leads into this collection behind its
index (`Node.HasSibling.formAt?`, `Node.HasSibling.mem_nodes`). A change of everything changes the sibling where it
stands (`Node.HasSibling.map`), a change along a path that does not lead into it leaves it alone
(`Node.HasSibling.along`), and two nodes that look the same once they are redrawn have siblings that do
(`Node.HasSibling.of_redraw`).
-/

set_option autoImplicit false

namespace Formwork

open Formwork.Text

namespace Sibling

/-- The members of a sibling as a collection. -/
def body (sibling : Sibling) : Node := .collection ⟨.plain, none⟩ none sibling.members

/-- The sibling without messages. -/
def muted (sibling : Sibling) : Sibling :=
  .mk sibling.isPristine (Node.redrawMembers Form.clearErrors id sibling.members)

/-- The sibling at a path with its forms and frames changed. -/
def map (onForm : Path → Form → Form) (onFrame : Path → Frame → Frame) (path : Path) (sibling : Sibling) : Sibling :=
  .mk sibling.isPristine (Node.mapMembers false onForm onFrame path sibling.members)

theorem body_muted (sibling : Sibling) : sibling.muted.body = sibling.body.redraw Form.clearErrors id := rfl

/-- A change that leaves a plain frame as it is changes the sibling as a collection. -/
theorem body_map {onForm : Path → Form → Form} {onFrame : Path → Frame → Frame} {path : Path}
    (plain : onFrame path ⟨.plain, none⟩ = ⟨.plain, none⟩) (sibling : Sibling) :
    (sibling.map onForm onFrame path).body = sibling.body.map false onForm onFrame path := by
  rw [body, body, Node.map, plain]
  rfl

theorem eq_of_body {first second : Sibling} (pristine : first.isPristine = second.isPristine)
    (body : first.body = second.body) : first = second := by
  cases first
  cases second
  cases pristine
  cases body
  rfl

end Sibling

namespace Node

/-! ## What stands after a change -/

section Stands

variable {onForm : Path → Form → Form} {onFrame : Path → Frame → Frame} {node inner : Node} {segments : List String}

/-- What stands at a path is listed there. -/
theorem Stands.listed (stands : node.Stands segments inner) (path : Path) :
    (path.extend ⟨segments⟩, inner) ∈ node.nodes false path :=
  mem_nodes_iff.mpr ⟨segments, rfl, stands⟩

theorem stands_of_listed {path : Path} (listed : (path.extend ⟨segments⟩, inner) ∈ node.nodes false path) :
    node.Stands segments inner := by
  obtain ⟨front, same, stands⟩ := mem_nodes_iff.mp listed
  cases Path.extend_injective same
  exact stands

/-- A change of everything changes what stands at a path. -/
theorem Stands.map (stands : node.Stands segments inner) (path : Path) :
    (node.map false onForm onFrame path).Stands segments
      (inner.map false onForm onFrame (path.extend ⟨segments⟩)) := by
  refine @stands_of_listed _ _ _ path ?_
  rw [nodes_map]
  exact List.mem_map.mpr ⟨_, stands.listed path, rfl⟩

/-- Where something stands in a node, something that looks the same stands in every node that looks the same. -/
theorem Stands.of_redraw {drawForm : Form → Form} {drawFrame : Frame → Frame} {other : Node}
    (alike : other.redraw drawForm drawFrame = node.redraw drawForm drawFrame) (stands : node.Stands segments inner) :
    ∃ found, other.Stands segments found ∧ found.redraw drawForm drawFrame = inner.redraw drawForm drawFrame := by
  have listed : (Path.root.extend ⟨segments⟩, inner.redraw drawForm drawFrame) ∈
      (other.redraw drawForm drawFrame).nodes false .root := by
    rw [alike, nodes_redraw]
    exact List.mem_map.mpr ⟨_, stands.listed .root, rfl⟩
  rw [nodes_redraw] at listed
  obtain ⟨⟨place, found⟩, there, same⟩ := List.mem_map.mp listed
  obtain ⟨rfl, looks⟩ := Prod.mk.inj same
  exact ⟨found, stands_of_listed there, looks⟩

/-- A change along a path that keeps the branches of every node on the way carries on beneath a node on the way, and
leaves other ones alone. -/
theorem Stands.along (regular : node.Regular) {change : List String → Node → Node}
    (stable : ∀ segments inner, (change segments inner).branches = inner.branches)
    (stands : node.Stands segments inner) (target : List String) :
    (node.along change target).Stands segments
      (if segments.isPrefixOf target then inner.along change (target.drop segments.length) else inner) := by
  induction node using branchInduction generalizing segments target with
  | step node ih =>
      rcases stands_iff.mp stands with ⟨rfl, rfl⟩ | ⟨branch, inside, rest, rfl, below⟩
      · exact .here _
      · refine stands_iff.mpr (.inr ⟨(branch.1, if branch.1.isPrefixOf target then
          branch.2.along change (target.drop branch.1.length) else branch.2), ?_, rest, rfl, ?_⟩)
        · rw [branches_along (fun other => stable _ other) regular.nodup_fronts]
          exact List.mem_map.mpr ⟨branch, inside, rfl⟩
        · dsimp only
          by_cases onTheWay : branch.1.isPrefixOf target = true
          · obtain ⟨others, rfl⟩ := List.isPrefixOf_iff_prefix.mp onTheWay
            have further := ih branch inside (regular.branch inside) below others
            rw [if_pos onTheWay, List.drop_left]
            have fronts : (branch.1 ++ rest).isPrefixOf (branch.1 ++ others) = rest.isPrefixOf others := by
              rw [Bool.eq_iff_iff, List.isPrefixOf_iff_prefix, List.isPrefixOf_iff_prefix,
                List.prefix_append_right_inj]
            rwa [fronts, List.length_append, ← List.drop_drop, List.drop_left]
          · have apart : ¬(branch.1 ++ rest).isPrefixOf target = true := fun leads =>
              onTheWay (List.isPrefixOf_iff_prefix.mpr
                ((List.prefix_append ..).trans (List.isPrefixOf_iff_prefix.mp leads)))
            rw [if_neg onTheWay, if_neg apart]
            exact below

/-- The form on the way along some segments lies beneath the node on the way. -/
theorem formAt?_append (regular : node.Regular) (stands : node.Stands segments inner) (rest : List String) :
    node.formAt? (segments ++ rest) = inner.formAt? rest := by
  induction stands with
  | here node => rfl
  | @member _ _ _ name outer _ others inside _ ih =>
      have next := (@next?_eq_some_iff _ regular (name :: (others ++ rest)) (others ++ rest) outer).mpr
        ⟨[name], mem_branches_collection.mpr ⟨name, rfl, inside⟩, rfl⟩
      rw [formAt?_eq rfl, List.cons_append, next]
      exact ih (regular.collection.inner _ inside)
  | @sibling _ _ _ index sibling name outer _ others there inside _ ih =>
      have next := (@next?_eq_some_iff _ regular (indexText index :: name :: (others ++ rest)) (others ++ rest)
        outer).mpr ⟨[indexText index, name], mem_branches_series.mpr ⟨index, sibling, name, there, rfl, inside⟩, rfl⟩
      rw [formAt?_eq rfl, List.cons_append, List.cons_append, next]
      exact ih ((regular.series (List.mem_of_getElem? there)).inner _ inside)

end Stands

/-! ## Siblings -/

/-- A sibling stands under an index beneath the series that some segments lead to. -/
def HasSibling (segments : List String) (index : Nat) (sibling : Sibling) (node : Node) : Prop :=
  ∃ frame template siblings, node.Stands segments (.series frame template siblings) ∧ siblings[index]? = some sibling

namespace HasSibling

variable {node : Node} {segments : List String} {index : Nat} {sibling : Sibling}
variable (has : node.HasSibling segments index sibling)
include has

/-- A change of everything changes a sibling where it stands. -/
theorem map (onForm : Path → Form → Form) (onFrame : Path → Frame → Frame) (path : Path) :
    (node.map false onForm onFrame path).HasSibling segments index
      (sibling.map onForm onFrame ((path.extend ⟨segments⟩).join (indexText index))) := by
  obtain ⟨frame, template, siblings, stands, there⟩ := has
  have changed := @Stands.map onForm onFrame _ _ _ stands path
  rw [Node.map] at changed
  refine ⟨_, _, _, changed, ?_⟩
  rw [mapSiblings_eq, List.getElem?_map, List.getElem?_zipIdx, there]
  simp [Sibling.map]

/-- Nodes that look the same without their messages have siblings that do. -/
theorem of_redraw {other : Node} (alike : other.redraw Form.clearErrors id = node.redraw Form.clearErrors id) :
    ∃ found, other.HasSibling segments index found ∧ found.muted = sibling.muted := by
  obtain ⟨frame, template, siblings, stands, there⟩ := has
  obtain ⟨found, standsToo, looks⟩ := stands.of_redraw alike
  cases found with
  | form content => cases looks
  | collection frame progress members => cases looks
  | series otherFrame otherTemplate others =>
      rw [redraw, redraw] at looks
      have drawn : redrawSiblings Form.clearErrors id others = redrawSiblings Form.clearErrors id siblings := by
        injection looks
      rw [redrawSiblings_eq, redrawSiblings_eq] at drawn
      have same := congrArg (·[index]?) drawn
      simp only [List.getElem?_map, there, Option.map_some, Option.map_eq_some_iff] at same
      obtain ⟨own, inside, same⟩ := same
      refine ⟨own, ⟨_, _, _, standsToo, inside⟩, ?_⟩
      rw [Sibling.muted, Sibling.muted, redrawMembers_eq, redrawMembers_eq, same]

variable (regular : node.Regular)
include regular

/-- A change along a path that does not lead into a sibling leaves it alone. -/
theorem along {change : List String → Node → Node}
    (stable : ∀ segments inner, (change segments inner).branches = inner.branches)
    (spares : ∀ rest frame template siblings, rest.head? ≠ some (indexText index) →
      ∃ changed, change rest (.series frame template siblings) = .series frame template changed ∧
        changed[index]? = siblings[index]?)
    {target : List String} (apart : ¬segments ++ [indexText index] <+: target) :
    (node.along change target).HasSibling segments index sibling := by
  obtain ⟨frame, template, siblings, stands, there⟩ := has
  have after := stands.along regular stable target
  split at after
  · rename_i onTheWay
    obtain ⟨rest, rfl⟩ := List.isPrefixOf_iff_prefix.mp onTheWay
    rw [List.drop_left] at after
    have elsewhere : rest.head? ≠ some (indexText index) := by
      intro leads
      obtain ⟨further, rfl⟩ := List.head?_eq_some_iff.mp leads
      exact apart ⟨further, by simp⟩
    cases rest with
    | nil =>
        obtain ⟨changed, same, kept⟩ := spares [] frame template siblings elsewhere
        rw [Node.along, same] at after
        exact ⟨_, _, _, after, kept.trans there⟩
    | cons first rest =>
        rw [Node.along] at after
        cases read : canonicalIndex? first with
        | none =>
            obtain ⟨changed, same, kept⟩ := spares (first :: rest) frame template siblings elsewhere
            rw [read] at after
            dsimp only at after
            rw [same] at after
            exact ⟨_, _, _, after, kept.trans there⟩
        | some position =>
            obtain ⟨changed, same, kept⟩ :=
              spares (first :: rest) frame template (alongSiblings change rest position siblings) elsewhere
            rw [read] at after
            dsimp only at after
            rw [same] at after
            have other : position ≠ index := by
              rintro rfl
              exact elsewhere (congrArg some (canonicalIndex?_eq_some_iff.mp read))
            refine ⟨_, _, _, after, kept.trans ?_⟩
            rw [alongSiblings_eq, List.getElem?_modify, there]
            simp [other]
  · exact ⟨_, _, _, after, there⟩

/-- A change of a form outside of a sibling leaves it alone. -/
theorem modifyForm {target : List String} (apart : ¬segments ++ [indexText index] <+: target)
    (change : List String → Form → Form) : (node.modifyForm change target).HasSibling segments index sibling := by
  refine has.along regular (fun rest inner => ?_) (fun rest frame template siblings _ => ⟨siblings, rfl, rfl⟩) apart
  cases inner <;> rfl

/-- A touch outside of a sibling leaves it alone. -/
theorem touch {target : List String} (apart : ¬segments ++ [indexText index] <+: target) :
    (node.touch target).HasSibling segments index sibling := by
  refine has.along regular (fun rest inner => ?_) (fun rest frame template siblings elsewhere => ?_) apart
  · split
    · split
      · rename_i frame template siblings _ position _
        simp only [branches, zipIdx_modify, List.flatMap_map]
        refine List.flatMap_congr fun entry _ => ?_
        split
        · cases entry.1
          rfl
        · rfl
      · rfl
    · rfl
  · cases rest with
    | nil => exact ⟨siblings, rfl, rfl⟩
    | cons first rest =>
        cases read : canonicalIndex? first with
        | none => exact ⟨siblings, by simp only [read], rfl⟩
        | some position =>
            refine ⟨siblings.modify position Sibling.touched, by simp only [read], ?_⟩
            have other : position ≠ index := by
              rintro rfl
              exact elsewhere (congrArg some (canonicalIndex?_eq_some_iff.mp read))
            rw [List.getElem?_modify]
            simp [other]

/-- Only one sibling stands under an index. -/
theorem unique {other : Sibling} (hasOther : node.HasSibling segments index other) : sibling = other := by
  obtain ⟨frame, template, siblings, stands, there⟩ := has
  obtain ⟨frameToo, templateToo, others, standsToo, thereToo⟩ := hasOther
  have same := Option.some.inj (((get?_eq_some_iff regular).mpr stands).symm.trans
    ((get?_eq_some_iff regular).mpr standsToo))
  injection same with _ _ siblings
  subst siblings
  exact Option.some.inj (there.symm.trans thereToo)

/-- The sibling as a collection is regular. -/
theorem regular_body : sibling.body.Regular := by
  obtain ⟨frame, template, siblings, stands, there⟩ := has
  exact Regular.collection_iff.mpr ((regular.stands stands).series (List.mem_of_getElem? there))

/-- What is found behind the index of a sibling is found in the sibling. -/
theorem formAt? (rest : List String) :
    node.formAt? (segments ++ indexText index :: rest) = sibling.body.formAt? rest := by
  obtain ⟨frame, template, siblings, stands, there⟩ := has
  rw [formAt?_append regular stands, formAt?_eq rfl, formAt?_eq rfl, next?_series, Sibling.body, next?_collection]
  cases rest with
  | nil => rfl
  | cons name rest =>
      dsimp only
      rw [canonicalIndex?_eq_some_iff.mpr rfl, Option.bind_some, there, Option.bind_some]

/-- What stands behind the index of a sibling stands in the sibling. -/
theorem mem_nodes {path : Path} {rest : List String} {inner : Node}
    (listed : (path.extend ⟨segments ++ indexText index :: rest⟩, inner) ∈ node.nodes false path) :
    (path.extend ⟨segments ++ indexText index :: rest⟩, inner) ∈
      sibling.body.nodes false ((path.extend ⟨segments⟩).join (indexText index)) := by
  obtain ⟨frame, template, siblings, stands, there⟩ := has
  have beneath := stands.beneath regular (stands_of_listed listed)
  have found : sibling.body.Stands rest inner := by
    generalize whole : indexText index :: rest = further at beneath
    cases beneath with
    | here => cases whole
    | @sibling _ _ _ other own name outer _ others thereToo inside below =>
        obtain ⟨same, rfl⟩ := List.cons.inj whole
        obtain rfl := indexText_injective same
        obtain rfl := Option.some.inj (there.symm.trans thereToo)
        exact .member inside below
  have place : path.extend ⟨segments ++ indexText index :: rest⟩ =
      ((path.extend ⟨segments⟩).join (indexText index)).extend ⟨rest⟩ := by
    rw [Path.join_extend, Path.extend_append]
  rw [place]
  exact found.listed _

end HasSibling

end Node

end Formwork
