import Formwork.Proofs.Node.Layout
import Formwork.Proofs.Node.Places

/-!
# Finding elements by the paths they remember

The elements of a node remember the paths under which they are listed (`Node.paths_nodes`,
`Node.paths_groups`, `Node.paths_fields`). The search by remembered paths takes the way of the
segments behind the path of the node (`Node.way?_layout`), and so it finds what these segments lead to
(`Node.node?_layout` and its companions).
-/

set_option autoImplicit false

namespace Formwork

open Formwork.Text

namespace Path

theorem startsWith_extend (path : Path) (front segments : List String) :
    (path.extend ⟨segments⟩).startsWith (path.extend ⟨front⟩) = front.isPrefixOf segments := by
  rw [Bool.eq_iff_iff, startsWith, List.isPrefixOf_iff_prefix, List.isPrefixOf_iff_prefix]
  exact List.prefix_append_right_inj path.segments

theorem startsWith_join (path : Path) (name first : String) (rest : List String) :
    (path.extend ⟨first :: rest⟩).startsWith (path.join name) = true ↔ name = first := by
  rw [join_eq_extend, startsWith_extend]
  simp

theorem join_extend (path : Path) (name : String) (rest : List String) :
    (path.join name).extend ⟨rest⟩ = path.extend ⟨name :: rest⟩ := extend_append path [name] rest

/-- Whatever a longer path is a beginning of, the path itself is. -/
theorem stripFront?_of_startsWith {path place : Path} {front : List String}
    (begins : place.startsWith (path.extend ⟨front⟩) = true) : (place.stripFront? path).isSome = true := by
  obtain ⟨rest, segments⟩ := List.isPrefixOf_iff_prefix.mp begins
  have longer : place = path.extend (⟨front ++ rest⟩ : Path) := by
    cases place
    simpa [extend] using segments.symm
  rw [longer, stripFront?_extend]
  rfl

end Path

namespace Layout

/-- What stands directly beneath a collection, with the segments that lead there. -/
def parts : Layout → List (List String × Layout)
  | .collection _ members => members.map fun entry => ([entry.1], entry.2)
  | .series _ _ siblings => siblings.zipIdx.flatMap fun entry =>
    entry.1.map fun member => ([indexText entry.2, member.1], member.2)
  | _ => []

theorem memberWay?_eq (place : Path) (members : List (String × Layout)) :
    memberWay? place members = (members.find? fun entry => entry.2.leads place).bind fun entry =>
      (entry.2.way? place).map (entry.1 :: ·) := by
  induction members with
  | nil => rfl
  | cons entry rest ih =>
      rw [memberWay?, List.find?_cons]
      by_cases here : entry.2.leads place = true
      · simp [here]
      · simp [here, ih]

theorem siblingWay?_eq (place : Path) (index : Nat) (siblings : List (List (String × Layout))) :
    siblingWay? place index siblings =
      (((siblings.zipIdx index).flatMap fun entry =>
        entry.1.map fun member => ([indexText entry.2, member.1], member.2)).find? fun part =>
          part.2.leads place).bind fun part => (part.2.way? place).map (part.1 ++ ·) := by
  induction siblings generalizing index with
  | nil => rfl
  | cons members rest ih =>
      rw [siblingWay?, List.zipIdx_cons, List.flatMap_cons, List.find?_append, List.find?_map, ih,
        memberWay?_eq]
      rw [← List.isSome_find?]
      cases found : members.find? fun entry => entry.2.leads place with
      | none =>
          simp only [Function.comp_def, found, Option.isSome_none, Bool.false_eq_true, if_false,
            Option.map_none, Option.none_or]
      | some entry =>
          simp only [Function.comp_def, found, Option.isSome_some, if_true, Option.map_some, Option.some_or,
            Option.bind_some, Option.map_map]
          rfl

end Layout

namespace Node

open Layout

/-- A collection remembers what its branches remember where they stand. -/
theorem parts_layout (path : Path) (node : Node) :
    (node.layout path).parts =
      node.branches.map fun branch => (branch.1, branch.2.layout (path.extend ⟨branch.1⟩)) := by
  cases node with
  | form content => rfl
  | collection frame progress members =>
      simp only [layout, parts, branches, layoutMembers_eq, List.map_map]
      rfl
  | series frame template siblings =>
      have numbered : (layoutSiblings path 0 siblings).zipIdx = siblings.zipIdx.map fun entry =>
          (layoutMembers (path.join (indexText entry.2)) entry.1.members, entry.2) := by
        refine List.ext_getElem? ?_
        intro index
        rw [List.getElem?_zipIdx, getElem?_layoutSiblings, List.getElem?_map, List.getElem?_zipIdx]
        cases siblings[index]? with
        | none => rfl
        | some sibling => simp only [Option.map_some, Nat.zero_add]
      simp only [layout, parts, branches, numbered, layoutMembers_eq, List.map_flatMap, List.map_map,
        List.flatMap_map, Function.comp_def, Path.join_join]

/-! ## Enumeration -/

end Node

namespace Layout

variable (kind : Layout → Bool)

theorem paths_eq {layout : Layout} {rest : List Layout} (elements : layout.elements = layout :: rest) :
    layout.paths kind =
      (if kind layout then [layout.path] else []) ++ (rest.filter kind).map path := by
  rw [paths, elements, List.filter_cons]
  split
  · rfl
  · rfl

theorem paths_members (members : List (String × Layout)) :
    ((memberElements members).filter kind).map path = members.flatMap fun entry => entry.2.paths kind := by
  rw [memberElements_eq, List.filter_flatMap, List.map_flatMap]
  rfl

theorem paths_parts {layout : Layout} (isNode : layout.isNode = true) (notForm : layout.isGroup = false) :
    layout.paths kind = (if kind layout then [layout.path] else []) ++
      layout.parts.flatMap fun part => part.2.paths kind := by
  cases layout with
  | field path => cases isNode
  | fieldset path members => cases isNode
  | form path members => cases notForm
  | collection path members =>
      rw [paths_eq kind (by rw [elements]), paths_members, parts, List.flatMap_map]
  | series path template siblings =>
      rw [paths_eq kind (by rw [elements]), siblingElements_eq, List.filter_flatMap, List.map_flatMap, parts,
        List.flatMap_assoc]
      simp only [paths_members, List.flatMap_map]
      rw [← List.zipIdx_map_fst 0 siblings, List.flatMap_map, List.zipIdx_map_fst]

end Layout

namespace Member

open Layout

section Items

variable {α : Type} {kind : Layout → Bool} (view : Item → Option α)
variable (field : ∀ path entry, kind (.field path) = (view (.field entry)).isSome)
variable (fieldset : ∀ path members group, kind (.fieldset path members) = (view (.fieldset group)).isSome)
include field fieldset

/-- A member and everything beneath it remember the paths under which they are listed. -/
theorem paths_layout (path : Path) (member : Member) :
    (member.layout path).paths kind =
      ((member.items path).filterMap fun entry => (view entry.2).map (entry.1, ·)).map Prod.fst := by
  induction member using Member.induction generalizing path with
  | field entry =>
      rw [layout, paths_eq kind (by rw [elements]), field path entry, items, List.filterMap_cons]
      cases view (.field entry) <;> rfl
  | fieldset group members ih =>
      have inner : (layoutAll path members).flatMap (fun entry => entry.2.paths kind) =
          ((itemsAll path members).filterMap fun entry => (view entry.2).map (entry.1, ·)).map Prod.fst := by
        rw [layoutAll_eq, itemsAll_eq, List.flatMap_map, List.filterMap_flatMap, List.map_flatMap]
        exact List.flatMap_congr fun entry inside => ih entry inside _
      rw [layout, paths_eq kind (by rw [elements]), paths_members, inner, fieldset path _ group, items,
        List.filterMap_cons]
      cases view (.fieldset group) <;> rfl

theorem paths_layoutAll (path : Path) (members : List (String × Member)) :
    (layoutAll path members).flatMap (fun entry => entry.2.paths kind) =
      ((itemsAll path members).filterMap fun entry => (view entry.2).map (entry.1, ·)).map Prod.fst := by
  rw [layoutAll_eq, itemsAll_eq, List.flatMap_map, List.filterMap_flatMap, List.map_flatMap]
  exact List.flatMap_congr fun entry _ => paths_layout view field fieldset _ entry.2

end Items

end Member

namespace Node

open Layout

/-- A collection that is not listed itself remembers the listed paths of its branches. -/
theorem paths_branches (kind : Layout → Bool) {node : Node} (notForm : node.form? = none) (path : Path) :
    (node.layout path).paths kind = (if kind (node.layout path) then [path] else []) ++
      node.branches.flatMap fun branch => (branch.2.layout (path.extend ⟨branch.1⟩)).paths kind := by
  have parted : (node.layout path).paths kind =
      (if kind (node.layout path) then [(node.layout path).path] else []) ++
        (node.layout path).parts.flatMap fun part => part.2.paths kind := by
    cases node with
    | form content => cases notForm
    | collection frame progress members => exact paths_parts kind rfl rfl
    | series frame template siblings => exact paths_parts kind rfl rfl
  rw [parted, path_layout, parts_layout, List.flatMap_map]

/-- What is listed for the forms of a node is remembered at the same paths, if this holds of each form. -/
theorem paths_forms {α : Type} {kind : Layout → Bool} (list : Path → Form → List (Path × α))
    (ofForm : ∀ path content, ((Node.form content).layout path).paths kind = (list path content).map Prod.fst)
    (formsOnly : ∀ path node, Node.form? node = none → kind (node.layout path) = false)
    (path : Path) (node : Node) :
    (node.layout path).paths kind =
      ((node.forms false path).flatMap fun entry => list entry.1 entry.2).map Prod.fst := by
  induction node using branchInduction generalizing path with
  | step node ih =>
  cases form : node.form? with
  | some content =>
      obtain rfl := form?_eq_some_iff.mp form
      rw [ofForm, forms_form, List.flatMap_singleton]
  | none =>
      rw [paths_branches kind form, formsOnly path node form, forms_eq form, List.flatMap_assoc,
        List.map_flatMap]
      exact List.flatMap_congr fun branch inside => ih branch inside _

/-- The nodes remember the paths under which they are listed. -/
theorem paths_nodes (path : Path) (node : Node) :
    (node.layout path).paths isNode = (node.nodes false path).map Prod.fst := by
  have noneInside (member : Member) (path : Path) : (member.layout path).paths isNode = [] := by
    induction member using Member.induction generalizing path with
    | field entry => rfl
    | fieldset group members ih =>
        rw [Member.layout, paths_eq isNode (by rw [elements]), paths_members, Member.layoutAll_eq,
          List.flatMap_map]
        exact List.flatMap_eq_nil_iff.mpr fun entry inside => ih entry inside _
  induction node using branchInduction generalizing path with
  | step node ih =>
  have isNode : (node.layout path).isNode = true := by cases node <;> rfl
  rw [nodes_eq, List.map_cons, List.map_flatMap]
  cases form : node.form? with
  | some content =>
      obtain rfl := form?_eq_some_iff.mp form
      rw [layout, paths_eq Layout.isNode (by rw [elements]), paths_members, Member.layoutAll_eq,
        List.flatMap_map, List.flatMap_eq_nil_iff.mpr fun entry _ => noneInside entry.2 _]
      rfl
  | none =>
      rw [paths_branches Layout.isNode form, if_pos isNode]
      exact congrArg _ (List.flatMap_congr fun branch inside => ih branch inside _)

/-- The forms and fieldsets remember the paths under which their groups are listed. -/
theorem paths_groups (path : Path) (node : Node) :
    (node.layout path).paths isGroup = (node.groups path).map Prod.fst := by
  refine paths_forms (fun path content => content.groups path) (fun path content => ?_)
    (fun path node notForm => ?_) path node
  · rw [layout, paths_eq isGroup (by rw [elements]), paths_members,
      Member.paths_layoutAll Item.group? (fun _ _ => rfl) (fun _ _ _ => rfl)]
    rfl
  · cases node with
    | form content => cases notForm
    | collection frame progress members => rfl
    | series frame template siblings => rfl

/-- The fields remember the paths under which they are listed. -/
theorem paths_fields (path : Path) (node : Node) :
    (node.layout path).paths isField = (node.fields path).map Prod.fst := by
  refine paths_forms (fun path content => content.fields path) (fun path content => ?_)
    (fun path node notForm => ?_) path node
  · rw [layout, paths_eq isField (by rw [elements]), paths_members,
      Member.paths_layoutAll Item.field? (fun _ _ => rfl) (fun _ _ _ => rfl)]
    rfl
  · cases node with
    | form content => cases notForm
    | collection frame progress members => rfl
    | series frame template siblings => rfl

/-! ## Search -/

/-- Whether some segments lead from a node to a node, or into a form. -/
def reaches (segments : List String) (node : Node) : Bool :=
  (node.lineage segments).any fun stop => stop.1.isEmpty || stop.2.form?.isSome

theorem reaches_form (segments : List String) (content : Form) :
    (Node.form content).reaches segments = true := by
  simp [reaches, lineage, form?]

theorem next?_eq (segments : List String) (node : Node) :
    node.next? segments = (node.branches.find? fun branch => branch.1.isPrefixOf segments).map fun branch =>
      (segments.drop branch.1.length, branch.2) := by
  rw [next?]
  induction node.branches with
  | nil => rfl
  | cons branch rest ih =>
      rw [List.findSome?_cons, List.find?_cons]
      by_cases here : branch.1.isPrefixOf segments = true
      · rw [if_pos here, here]
        rfl
      · rw [if_neg here, eq_false_of_ne_true here]
        exact ih

theorem reaches_eq {node : Node} (notForm : node.form? = none) (segments : List String) :
    node.reaches segments = (segments.isEmpty ||
      (node.next? segments).any fun branch => branch.2.reaches branch.1) := by
  rw [reaches, lineage_eq, List.any_cons, notForm, Option.isSome_none, Bool.or_false]
  cases node.next? segments with
  | none => rfl
  | some branch => rfl

theorem way?_eq {node : Node} (notForm : node.form? = none) (path place : Path) :
    (node.layout path).way? place = if path = place then some [] else
      (node.branches.find? fun branch => place.startsWith (path.extend ⟨branch.1⟩)).bind fun branch =>
        ((branch.2.layout (path.extend ⟨branch.1⟩)).way? place).map (branch.1 ++ ·) := by
  have stored : (node.layout path).way? place = if path = place then some [] else
      ((node.layout path).parts.find? fun part => part.2.leads place).bind fun part =>
        (part.2.way? place).map (part.1 ++ ·) := by
    cases node with
    | form content => cases notForm
    | collection frame progress members =>
        rw [layout, way?, memberWay?_eq, parts, List.find?_map, Option.bind_map]
        rfl
    | series frame template siblings =>
        rw [layout, way?, siblingWay?_eq, parts]
  rw [stored, parts_layout, List.find?_map, Option.bind_map]
  simp only [Function.comp_def, leads, path_layout]

/-- The search by remembered paths takes the way of the segments behind the path of the node, if they
lead anywhere. -/
theorem way?_layout (path : Path) (segments : List String) (node : Node) :
    (node.layout path).way? (path.extend ⟨segments⟩) =
      if node.reaches segments then some segments else none := by
  induction node using branchInduction generalizing path segments with
  | step node ih =>
  cases form : node.form? with
  | some content =>
      obtain rfl := form?_eq_some_iff.mp form
      rw [layout, way?, Path.stripFront?_extend, reaches_form, if_pos rfl]
      rfl
  | none =>
      rw [way?_eq form, reaches_eq form, next?_eq]
      cases segments with
      | nil => rw [if_pos (Path.extend_nil path).symm]; rfl
      | cons first rest =>
          rw [if_neg Path.extend_cons_ne]
          simp only [Path.startsWith_extend, List.isEmpty_cons, Bool.false_or]
          cases found : node.branches.find? fun branch => branch.1.isPrefixOf (first :: rest) with
          | none => rfl
          | some branch =>
              have onTheWay : branch.1.isPrefixOf (first :: rest) = true := by
                simpa only using List.find?_some found
              obtain ⟨behind, same⟩ := List.isPrefixOf_iff_prefix.mp onTheWay
              rw [Option.bind_some, Option.map_some, Option.any_some, ← same, List.drop_left,
                ← Path.extend_append, ih branch (List.mem_of_find?_eq_some found)]
              split
              · rfl
              · rfl

/-- Outside a node nothing is found. -/
theorem way?_eq_none {path place : Path} (outside : place.stripFront? path = none) (node : Node) :
    (node.layout path).way? place = none := by
  have other : path ≠ place := by
    rintro rfl
    have inside := Path.stripFront?_extend path .root
    rw [Path.extend_root, outside] at inside
    cases inside
  cases form : node.form? with
  | some content =>
      obtain rfl := form?_eq_some_iff.mp form
      rw [layout, way?, outside]
      rfl
  | none =>
      have nowhere : (node.branches.find? fun branch => place.startsWith (path.extend ⟨branch.1⟩)) = none := by
        refine List.find?_eq_none.mpr fun branch _ begins => ?_
        have inside := Path.stripFront?_of_startsWith begins
        rw [outside] at inside
        cases inside
      rw [way?_eq form, if_neg other, nowhere]
      rfl

/-! ## What is found -/

section Found

theorem get?_eq_none {segments : List String} {node : Node} (nowhere : node.reaches segments = false) :
    node.get? segments = none := by
  refine List.findSome?_eq_none_iff.mpr fun stop inside => ?_
  have passed := List.any_eq_false.mp nowhere stop inside
  simp only [Bool.or_eq_true, not_or] at passed
  exact if_neg passed.1

theorem formAt?_eq_none {segments : List String} {node : Node} (nowhere : node.reaches segments = false) :
    node.formAt? segments = none := by
  refine List.findSome?_eq_none_iff.mpr fun stop inside => ?_
  have passed := List.any_eq_false.mp nowhere stop inside
  simp only [Bool.or_eq_true, not_or, Option.not_isSome_iff_eq_none] at passed
  exact Option.map_eq_none_iff.mpr passed.2

/-- Whatever is found by remembered paths is what the segments behind the path of the node lead to. -/
theorem bind_way?_layout {α : Type} {read : List String → Option α} {node : Node}
    (reads : ∀ segments, node.reaches segments = false → read segments = none) (path place : Path) :
    ((node.layout path).way? place).bind read = ((place.stripFront? path).map Path.segments).bind read := by
  cases found : place.stripFront? path with
  | none => rw [way?_eq_none found]; rfl
  | some rest =>
      obtain ⟨segments⟩ := rest
      obtain rfl := Path.stripFront?_eq_some_iff.mp found
      rw [way?_layout, Option.map_some, Option.bind_some]
      cases leads : node.reaches segments with
      | false => exact (reads segments leads).symm
      | true => rfl

theorem node?_layout (path place : Path) (node : Node) :
    (node.layout path).node? node place =
      ((place.stripFront? path).map Path.segments).bind fun segments => node.get? segments :=
  bind_way?_layout (fun _ => get?_eq_none) path place

theorem group?_layout (path place : Path) (node : Node) :
    (node.layout path).group? node place =
      ((place.stripFront? path).map Path.segments).bind fun segments => node.group? segments := by
  refine bind_way?_layout (fun segments nowhere => ?_) path place
  rw [Node.group?, formAt?_eq_none nowhere]
  rfl

theorem field?_layout (path place : Path) (node : Node) :
    (node.layout path).field? node place =
      ((place.stripFront? path).map Path.segments).bind fun segments => node.field? segments := by
  refine bind_way?_layout (fun segments nowhere => ?_) path place
  rw [Node.field?, formAt?_eq_none nowhere]
  rfl

end Found

end Node

end Formwork
