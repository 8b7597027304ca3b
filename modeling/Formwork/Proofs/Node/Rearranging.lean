import Formwork.Proofs.Node.Ways

/-!
# Changing the paths of what is found

A change of the node that is found by its remembered path changes the layout of a tree as the change of
the node itself would (`Node.changeAt_layout`): beneath a collection only the member with the next name
leads to the path, and beneath a series only the sibling with the next index.
-/

set_option autoImplicit false

namespace Formwork

open Formwork.Text

namespace Layout

theorem changeMembers_eq_self {edit : Layout → Layout} {place : Path} {members : List (String × Layout)}
    (elsewhere : ∀ entry ∈ members, entry.2.leads place = false) :
    changeMembers edit place members = members := by
  induction members with
  | nil => rfl
  | cons entry rest ih =>
      obtain ⟨here, behind⟩ := List.forall_mem_cons.mp elsewhere
      rw [changeMembers, here, ih behind]
      rfl

end Layout

namespace Node

open Layout

variable {edit : Layout → Layout} {change : Node → Node}

/-- Only the member with the next name leads to a path. -/
theorem changeMembers_layoutMembers {path : Path} {name : String} {rest : List String}
    {members : List (String × Node)}
    (below : ∀ child, Assoc.get? name members = some child →
      (child.layout (path.join name)).changeAt edit ((path.join name).extend ⟨rest⟩) =
        (child.modify change rest).layout (path.join name)) :
    changeMembers edit (path.extend ⟨name :: rest⟩) (layoutMembers path members) =
      layoutMembers path (Assoc.modify name (modify change rest) members) := by
  induction members with
  | nil => rfl
  | cons entry others ih =>
      obtain ⟨other, child⟩ := entry
      have leads : (child.layout (path.join other)).leads (path.extend ⟨name :: rest⟩) = true ↔
          other = name := by
        rw [Layout.leads, path_layout, Path.startsWith_join]
      by_cases same : other = name
      · subst same
        have changed := below child (if_pos rfl)
        rw [Path.join_extend] at changed
        rw [layoutMembers, changeMembers, if_pos (leads.mpr rfl), Assoc.modify, if_pos rfl, layoutMembers,
          changed]
      · rw [layoutMembers, changeMembers, if_neg (mt leads.mp same), Assoc.modify, if_neg same, layoutMembers,
          ih fun child found => below child ((if_neg same).trans found)]

/-- No member of a sibling leads to a path that does not go on with the index and the name of a member. -/
theorem leads_eq_false {path : Path} {index : Nat} {segments : List String}
    (apart : ∀ name, [indexText index, name].isPrefixOf segments = false) (members : List (String × Node)) :
    ∀ entry ∈ layoutMembers (path.join (indexText index)) members,
      entry.2.leads (path.extend ⟨segments⟩) = false := by
  intro entry inside
  rw [layoutMembers_eq] at inside
  obtain ⟨member, -, rfl⟩ := List.mem_map.mp inside
  rw [Layout.leads, path_layout, Path.join_join, Path.startsWith_extend, apart]

theorem isPrefixOf_eq_false {index : String} {segments : List String}
    (other : segments.head? ≠ some index) (name : String) : [index, name].isPrefixOf segments = false := by
  cases segments with
  | nil => rfl
  | cons first rest =>
      have apart : index ≠ first := fun same => other (congrArg some same.symm)
      rw [List.isPrefixOf_cons_cons, beq_eq_false_iff_ne.mpr apart, Bool.false_and]

/-- Since siblings have different indices, changing the first that leads to a path is changing all. -/
theorem changeSiblings_layoutSiblings (path : Path) (segments : List String) (start : Nat)
    (siblings : List Sibling) :
    changeSiblings edit (path.extend ⟨segments⟩) (layoutSiblings path start siblings) =
      (layoutSiblings path start siblings).map (changeMembers edit (path.extend ⟨segments⟩)) := by
  induction siblings generalizing start with
  | nil => rfl
  | cons sibling rest ih =>
      obtain ⟨pristine, members⟩ := sibling
      rw [layoutSiblings, changeSiblings, List.map_cons]
      split
      · rename_i leads
        have here : segments.head? = some (indexText start) := by
          by_contra other
          obtain ⟨entry, inside, begins⟩ := List.any_eq_true.mp leads
          rw [leads_eq_false (isPrefixOf_eq_false other) members entry inside] at begins
          cases begins
        refine congrArg _ (((List.map_id _).symm).trans (List.map_congr_left ?_))
        intro others inside
        rw [layoutSiblings_eq] at inside
        obtain ⟨later, there, rfl⟩ := List.mem_map.mp inside
        refine (changeMembers_eq_self (leads_eq_false (isPrefixOf_eq_false fun same => ?_) _)).symm
        have index : start = later.2 := indexText_injective (Option.some.inj (here.symm.trans same))
        have behind := List.le_snd_of_mem_zipIdx there
        omega
      · rename_i nowhere
        rw [ih, changeMembers_eq_self fun entry inside => ?_]
        exact Bool.eq_false_iff.mpr fun leads => nowhere (List.any_eq_true.mpr ⟨entry, inside, leads⟩)

theorem changeAt_self (path : Path) (node : Node) :
    (node.layout path).changeAt edit path = edit (node.layout path) := by
  cases node with
  | form content => rw [layout, changeAt, if_pos rfl]
  | collection frame progress members => rw [layout, changeAt, if_pos rfl]
  | series frame template siblings => rw [layout, changeAt, if_pos rfl]

/-- A change of the node that is found changes what is remembered as the change of the node itself. -/
theorem changeAt_layout {path : Path} {segments : List String} {node : Node}
    (agree : ∀ inner, node.get? segments = some inner →
      edit (inner.layout (path.extend ⟨segments⟩)) = (change inner).layout (path.extend ⟨segments⟩)) :
    (node.layout path).changeAt edit (path.extend ⟨segments⟩) = (node.modify change segments).layout path := by
  induction node using Node.induction generalizing path segments with
  | form content =>
      cases segments with
      | nil => simpa only [Path.extend_nil, changeAt_self, modify_nil] using agree _ (get?_nil _)
      | cons first rest =>
          rw [layout, changeAt, if_neg Path.extend_cons_ne]
          rfl
  | collection frame progress members ih =>
      cases segments with
      | nil => simpa only [Path.extend_nil, changeAt_self, modify_nil] using agree _ (get?_nil _)
      | cons name rest =>
          rw [layout, changeAt, if_neg Path.extend_cons_ne, modify_collection, layout,
            changeMembers_layoutMembers fun child found => ?_]
          refine ih (name, child) (Assoc.mem_of_get?_eq_some found) fun inner there => ?_
          rw [Path.join_extend]
          refine agree inner ?_
          rw [get?_cons, next?_collection]
          simpa only [found, Option.map_some, Option.bind_some] using there
  | series frame template siblings _ ih =>
      cases segments with
      | nil => simpa only [Path.extend_nil, changeAt_self, modify_nil] using agree _ (get?_nil _)
      | cons index rest =>
          rw [layout, changeAt, if_neg Path.extend_cons_ne, modify_series, layout,
            changeSiblings_layoutSiblings]
          refine congrArg _ (List.ext_getElem? ?_)
          intro other
          rw [List.getElem?_map, getElem?_layoutSiblings, getElem?_layoutSiblings, List.getElem?_mapIdx]
          cases stands : siblings[other]? with
          | none => rfl
          | some sibling =>
              simp only [Option.map_some]
              split
              · rename_i here
                subst here
                cases rest with
                | nil => exact congrArg some (changeMembers_eq_self (leads_eq_false (fun name => by simp) _))
                | cons name rest =>
                    rw [← Path.join_extend]
                    refine congrArg some (changeMembers_layoutMembers ?_)
                    intro child found
                    refine ih sibling (List.mem_of_getElem? stands) (name, child)
                      (Assoc.mem_of_get?_eq_some found) fun inner there => ?_
                    rw [Path.join_extend, Path.join_extend]
                    refine agree inner ?_
                    rw [get?_cons, next?_series]
                    simpa [stands, found, canonicalIndex?_eq_some_iff.mpr rfl] using there
              · rename_i elsewhere
                have other : (index :: rest).head? ≠ some (indexText other) :=
                  fun same => elsewhere (Option.some.inj same)
                exact congrArg some (changeMembers_eq_self (leads_eq_false (isPrefixOf_eq_false other) _))

end Node

end Formwork
