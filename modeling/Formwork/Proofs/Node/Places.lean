import Formwork.Proofs.Places

/-!
# The places of a tree

`Node.Stands` says that some segments lead from a node to another one: the name of a member at every
collection, and the index of a sibling followed by the name of a member at every series. The
enumerations of nodes, forms, fields and groups list exactly what stands somewhere, at the path
that the segments give (`mem_nodes_iff`, `mem_fields_iff`, `mem_groups_iff`). In a regular tree no
place is listed twice, and following a path finds what is listed there and nothing else
(`get?_eq_some_iff`, `field?_eq_some_iff`, `group?_eq_some_iff`).
-/

set_option autoImplicit false

namespace Formwork.Node

open Formwork.Text

/-- Some segments lead from a node to a node. -/
inductive Stands : Node → List String → Node → Prop where
  | here (node : Node) : Stands node [] node
  | member {frame : Frame} {progress : Option Progress} {members : List (String × Node)}
      {name : String} {outer node : Node} {segments : List String} (inside : (name, outer) ∈ members)
      (below : Stands outer segments node) :
      Stands (.collection frame progress members) (name :: segments) node
  | sibling {frame : Frame} {template : List (String × Node)} {siblings : List Sibling} {index : Nat}
      {sibling : Sibling} {name : String} {outer node : Node} {segments : List String}
      (stands : siblings[index]? = some sibling) (inside : (name, outer) ∈ sibling.members)
      (below : Stands outer segments node) :
      Stands (.series frame template siblings) (indexText index :: name :: segments) node

/-- What stands beneath a node stands where the node does and further along. -/
theorem Stands.append {node inner found : Node} {front rest : List String} (stands : node.Stands front inner)
    (below : inner.Stands rest found) : node.Stands (front ++ rest) found := by
  induction stands with
  | here node => exact below
  | member inside _ ih => exact .member inside (ih below)
  | sibling stands inside _ ih => exact .sibling stands inside (ih below)

/-- A node stands at no segments, and what stands elsewhere stands beneath a branch. -/
theorem stands_iff {node inner : Node} {segments : List String} :
    node.Stands segments inner ↔ (segments = [] ∧ inner = node) ∨
      ∃ branch ∈ node.branches, ∃ rest, segments = branch.1 ++ rest ∧ branch.2.Stands rest inner := by
  constructor
  · intro stands
    cases stands with
    | here => exact .inl ⟨rfl, rfl⟩
    | @member _ _ _ name outer _ rest inside below =>
        exact .inr ⟨([name], outer), mem_branches_collection.mpr ⟨name, rfl, inside⟩, rest, rfl, below⟩
    | @sibling _ _ _ index sibling name outer _ rest stands inside below =>
        exact .inr ⟨([indexText index, name], outer),
          mem_branches_series.mpr ⟨index, sibling, name, stands, rfl, inside⟩, rest, rfl, below⟩
  · rintro (⟨rfl, rfl⟩ | ⟨⟨front, outer⟩, inside, rest, rfl, below⟩)
    · exact .here _
    · cases node with
      | form content => simp [branches] at inside
      | collection frame progress members =>
          obtain ⟨name, rfl, there⟩ := mem_branches_collection.mp inside
          exact .member there below
      | series frame template siblings =>
          obtain ⟨index, sibling, name, stands, rfl, there⟩ := mem_branches_series.mp inside
          exact .sibling stands there below

theorem stands_form_iff {content : Form} {segments : List String} {inner : Node} :
    (Node.form content).Stands segments inner ↔ segments = [] ∧ inner = .form content := by
  rw [stands_iff]
  simp [branches]

/-- The segments in front of a branch are at least one. -/
theorem front_ne_nil {node : Node} {branch : List String × Node} (inside : branch ∈ node.branches) :
    branch.1 ≠ [] := by
  cases node with
  | form content => simp [branches] at inside
  | collection frame progress members =>
      obtain ⟨name, front, -⟩ := mem_branches_collection.mp inside
      simp [front]
  | series frame template siblings =>
      obtain ⟨index, sibling, name, -, front, -⟩ := mem_branches_series.mp inside
      simp [front]

/-- The same number of segments leads into all branches of a node. -/
theorem length_front {node : Node} {first second : List String × Node}
    (inFirst : first ∈ node.branches) (inSecond : second ∈ node.branches) :
    first.1.length = second.1.length := by
  cases node with
  | form content => simp [branches] at inFirst
  | collection frame progress members =>
      obtain ⟨_, frontFirst, -⟩ := mem_branches_collection.mp inFirst
      obtain ⟨_, frontSecond, -⟩ := mem_branches_collection.mp inSecond
      simp [frontFirst, frontSecond]
  | series frame template siblings =>
      obtain ⟨_, _, _, -, frontFirst, -⟩ := mem_branches_series.mp inFirst
      obtain ⟨_, _, _, -, frontSecond, -⟩ := mem_branches_series.mp inSecond
      simp [frontFirst, frontSecond]

/-! ## What the enumerations list -/

/-- The enumeration lists what stands in a tree at the path of the tree followed by the segments. -/
theorem mem_nodes_iff {path place : Path} {node inner : Node} :
    (place, inner) ∈ node.nodes false path ↔
      ∃ segments, place = path.extend ⟨segments⟩ ∧ node.Stands segments inner := by
  induction node using branchInduction generalizing path with
  | step node ih =>
      rw [nodes_eq, List.mem_cons, List.mem_flatMap]
      constructor
      · rintro (same | ⟨branch, inside, listed⟩)
        · cases same
          exact ⟨[], (Path.extend_root place).symm, .here inner⟩
        · obtain ⟨rest, rfl, below⟩ := (ih branch inside).mp listed
          exact ⟨branch.1 ++ rest, Path.extend_append path branch.1 rest,
            stands_iff.mpr (.inr ⟨branch, inside, rest, rfl, below⟩)⟩
      · rintro ⟨segments, rfl, stands⟩
        rcases stands_iff.mp stands with ⟨rfl, rfl⟩ | ⟨branch, inside, rest, rfl, below⟩
        · exact .inl (Prod.ext (Path.extend_root path) rfl)
        · refine .inr ⟨branch, inside, (ih branch inside).mpr ⟨rest, ?_, below⟩⟩
          exact (Path.extend_append path branch.1 rest).symm

theorem mem_forms_iff {path place : Path} {node : Node} {content : Form} :
    (place, content) ∈ node.forms false path ↔
      ∃ front, place = path.extend ⟨front⟩ ∧ node.Stands front (.form content) := by
  rw [← mem_nodes_iff, forms, List.mem_filterMap]
  constructor
  · rintro ⟨⟨found, inner⟩, listed, same⟩
    obtain ⟨own, isForm, same⟩ := Option.map_eq_some_iff.mp same
    obtain rfl := form?_eq_some_iff.mp isForm
    cases same
    exact listed
  · exact fun listed => ⟨_, listed, rfl⟩

/-- The groups of the forms at and beneath a node. -/
def groups (path : Path) (node : Node) : List (Path × Group) :=
  (node.forms false path).flatMap fun (place, content) => content.groups place

theorem mem_fields_iff {path place : Path} {node : Node} {entry : Field} :
    (place, entry) ∈ node.fields path ↔ ∃ front content names, place = path.extend ⟨front ++ names⟩ ∧
      node.Stands front (.form content) ∧ Member.Stands content.members names (.field entry) := by
  simp only [fields, List.mem_flatMap, Prod.exists, mem_forms_iff, Form.mem_fields_iff]
  constructor
  · rintro ⟨_, content, ⟨front, rfl, stands⟩, names, rfl, member⟩
    exact ⟨front, content, names, Path.extend_append path front names, stands, member⟩
  · rintro ⟨front, content, names, rfl, stands, member⟩
    exact ⟨_, content, ⟨front, rfl, stands⟩, names, (Path.extend_append path front names).symm, member⟩

/-- A group stands at the place of its form, or at that of its fieldset. -/
theorem mem_groups_iff {path place : Path} {node : Node} {group : Group} :
    (place, group) ∈ node.groups path ↔ ∃ front content, node.Stands front (.form content) ∧
      ((place = path.extend ⟨front⟩ ∧ group = content.group) ∨
        ∃ names members, place = path.extend ⟨front ++ names⟩ ∧
          Member.Stands content.members names (.fieldset group members)) := by
  simp only [groups, List.mem_flatMap, Prod.exists, mem_forms_iff, Form.mem_groups_iff]
  constructor
  · rintro ⟨_, content, ⟨front, rfl, stands⟩, same | ⟨names, members, rfl, member⟩⟩
    · exact ⟨front, content, stands, .inl same⟩
    · exact ⟨front, content, stands,
        .inr ⟨names, members, Path.extend_append path front names, member⟩⟩
  · rintro ⟨front, content, stands, same | ⟨names, members, rfl, member⟩⟩
    · exact ⟨_, content, ⟨front, rfl, stands⟩, .inl same⟩
    · exact ⟨_, content, ⟨front, rfl, stands⟩,
        .inr ⟨names, members, (Path.extend_append path front names).symm, member⟩⟩

/-! ## Lookup in a regular tree -/

section Regular

variable {node : Node} (regular : node.Regular)
include regular

/-- What stands in a regular tree is regular. -/
theorem Regular.stands {segments : List String} {inner : Node} (stands : node.Stands segments inner) :
    inner.Regular := by
  induction stands with
  | here node => exact regular
  | member inside _ ih => exact ih (regular.collection.inner _ inside)
  | sibling stands inside _ ih =>
      exact ih ((regular.series (List.mem_of_getElem? stands)).inner _ inside)

/-- At most one branch lies on the way along some segments. -/
theorem next?_eq_some_iff {segments rest : List String} {inner : Node} :
    node.next? segments = some (rest, inner) ↔
      ∃ front, (front, inner) ∈ node.branches ∧ segments = front ++ rest := by
  have onTheWay {branch : List String × Node} (inside : branch ∈ node.branches)
      (isFront : branch.1.isPrefixOf segments = true) :
      segments = branch.1 ++ segments.drop branch.1.length :=
    (List.prefix_iff_eq_append.mp (List.isPrefixOf_iff_prefix.mp isFront)).symm
  constructor
  · intro found
    obtain ⟨branch, inside, same⟩ := List.exists_of_findSome?_eq_some found
    split at same
    · rename_i isFront
      cases same
      exact ⟨branch.1, inside, onTheWay inside isFront⟩
    · cases same
  · rintro ⟨front, inside, rfl⟩
    cases found : node.next? (front ++ rest) with
    | none =>
        have missed := List.findSome?_eq_none_iff.mp found (front, inner) inside
        simp at missed
    | some answer =>
        obtain ⟨branch, there, same⟩ := List.exists_of_findSome?_eq_some found
        split at same
        · rename_i isFront
          have fronts := onTheWay there isFront
          have sameFront : front = branch.1 :=
            List.append_inj_left fronts (length_front inside there)
          obtain rfl : (front, inner) = branch :=
            List.inj_on_of_nodup_map regular.nodup_fronts inside there sameFront
          rw [← same, List.drop_left]
        · cases same

/-- Lookup finds the node that stands at the segments, and nothing else. -/
theorem get?_eq_some_iff {segments : List String} {inner : Node} :
    node.get? segments = some inner ↔ node.Stands segments inner := by
  induction node using branchInduction generalizing segments with
  | step node ih =>
      rw [stands_iff]
      cases segments with
      | nil =>
          have noBranch {branch : List String × Node} {rest : List String}
              (inside : branch ∈ node.branches) : ¬ [] = branch.1 ++ rest := fun same =>
            front_ne_nil inside (List.append_eq_nil_iff.mp same.symm).1
          rw [get?_nil]
          constructor
          · rintro ⟨⟩
            exact .inl ⟨rfl, rfl⟩
          · rintro (⟨-, rfl⟩ | ⟨branch, inside, rest, same, -⟩)
            · rfl
            · exact absurd same (noBranch inside)
      | cons first others =>
          rw [get?_cons, Option.bind_eq_some_iff]
          constructor
          · rintro ⟨⟨rest, outer⟩, found, there⟩
            obtain ⟨front, inside, same⟩ := (next?_eq_some_iff regular).mp found
            exact .inr ⟨(front, outer), inside, rest, same,
              (ih _ inside (regular.branch inside)).mp there⟩
          · rintro (⟨same, -⟩ | ⟨branch, inside, rest, same, below⟩)
            · cases same
            · exact ⟨(rest, branch.2), (next?_eq_some_iff regular).mpr ⟨branch.1, inside, same⟩,
                (ih branch inside (regular.branch inside)).mpr below⟩

/-- The form on the way along some segments is the one that stands at a beginning of them. -/
theorem formAt?_eq_some_iff {segments names : List String} {content : Form} :
    node.formAt? segments = some (names, content) ↔
      ∃ front, segments = front ++ names ∧ node.Stands front (.form content) := by
  induction node using branchInduction generalizing segments with
  | step node ih =>
      cases isForm : node.form? with
      | some own =>
          obtain rfl := form?_eq_some_iff.mp isForm
          rw [formAt?_form]
          simp only [Option.some.injEq, Prod.mk.injEq, stands_form_iff, Node.form.injEq]
          constructor
          · rintro ⟨rfl, rfl⟩
            exact ⟨[], rfl, rfl, rfl⟩
          · rintro ⟨_, rfl, rfl, rfl⟩
            exact ⟨rfl, rfl⟩
      | none =>
          rw [formAt?_eq isForm, Option.bind_eq_some_iff]
          constructor
          · rintro ⟨⟨rest, outer⟩, found, there⟩
            obtain ⟨front, inside, rfl⟩ := (next?_eq_some_iff regular).mp found
            obtain ⟨further, rfl, stands⟩ := (ih _ inside (regular.branch inside)).mp there
            exact ⟨front ++ further, (List.append_assoc ..).symm,
              stands_iff.mpr (.inr ⟨_, inside, further, rfl, stands⟩)⟩
          · rintro ⟨front, rfl, stands⟩
            rcases stands_iff.mp stands with ⟨-, rfl⟩ | ⟨branch, inside, rest, rfl, below⟩
            · cases isForm
            · refine ⟨(rest ++ names, branch.2), (next?_eq_some_iff regular).mpr
                ⟨branch.1, inside, List.append_assoc ..⟩, ?_⟩
              exact (ih branch inside (regular.branch inside)).mpr ⟨rest, rfl, below⟩

theorem field?_eq_some_iff {segments : List String} {entry : Field} :
    node.field? segments = some entry ↔ ∃ front content names, segments = front ++ names ∧
      node.Stands front (.form content) ∧ Member.Stands content.members names (.field entry) := by
  simp only [field?, Option.bind_eq_some_iff, Prod.exists, formAt?_eq_some_iff regular]
  constructor
  · rintro ⟨names, content, ⟨front, rfl, stands⟩, found⟩
    have members := (regular.stands stands).form
    exact ⟨front, content, names, rfl, stands, (Form.field?_eq_some_iff members).mp found⟩
  · rintro ⟨front, content, names, rfl, stands, member⟩
    have members := (regular.stands stands).form
    exact ⟨names, content, ⟨front, rfl, stands⟩, (Form.field?_eq_some_iff members).mpr member⟩

theorem group?_eq_some_iff {segments : List String} {group : Group} :
    node.group? segments = some group ↔ ∃ front content, node.Stands front (.form content) ∧
      ((segments = front ∧ group = content.group) ∨ ∃ names members, segments = front ++ names ∧
        Member.Stands content.members names (.fieldset group members)) := by
  simp only [group?, Option.bind_eq_some_iff, Prod.exists, formAt?_eq_some_iff regular]
  constructor
  · rintro ⟨names, content, ⟨front, rfl, stands⟩, found⟩
    have members := (regular.stands stands).form
    rcases (Form.group?_eq_some_iff members).mp found with ⟨rfl, rfl⟩ | ⟨inner, member⟩
    · exact ⟨front, content, stands, .inl ⟨List.append_nil front, rfl⟩⟩
    · exact ⟨front, content, stands, .inr ⟨names, inner, rfl, member⟩⟩
  · rintro ⟨front, content, stands, ⟨rfl, rfl⟩ | ⟨names, inner, rfl, member⟩⟩
    all_goals have members := (regular.stands stands).form
    · exact ⟨[], content, ⟨segments, (List.append_nil segments).symm, stands⟩, rfl⟩
    · exact ⟨names, content, ⟨front, rfl, stands⟩,
        (Form.group?_eq_some_iff members).mpr (.inr ⟨inner, member⟩)⟩

/-- What stands further along the segments of a node stands beneath this node. -/
theorem Stands.beneath {front rest : List String} {inner found : Node} (stands : node.Stands front inner)
    (further : node.Stands (front ++ rest) found) : inner.Stands rest found := by
  induction stands with
  | here node => exact further
  | @member _ _ _ name outer _ segments inside below ih =>
      cases further with
      | member insideOther deeper =>
          obtain rfl := regular.collection.unique inside insideOther
          exact ih (regular.collection.inner _ inside) deeper
  | @sibling _ _ _ index sibling name outer _ segments there inside below ih =>
      generalize same : indexText index :: name :: segments ++ rest = whole at further
      cases further with
      | here => cases same
      | @sibling _ _ _ other _ _ _ _ _ thereOther insideOther deeper =>
          simp only [List.cons_append, List.cons.injEq] at same
          obtain ⟨sameIndex, rfl, rfl⟩ := same
          obtain rfl := indexText_injective sameIndex
          obtain rfl := Option.some.inj (there.symm.trans thereOther)
          have members := regular.series (List.mem_of_getElem? there)
          obtain rfl := members.unique inside insideOther
          exact ih (members.inner _ inside) deeper

/-- At most one form stands on the way along some segments. -/
theorem stands_form_unique {front names other rest : List String}
    {form content : Form} (stands : node.Stands front (.form form))
    (standsOther : node.Stands other (.form content)) (same : front ++ names = other ++ rest) :
    front = other ∧ names = rest ∧ form = content := by
  have first : node.formAt? (front ++ names) = some (names, form) :=
    (formAt?_eq_some_iff regular).mpr ⟨front, rfl, stands⟩
  have second : node.formAt? (front ++ names) = some (rest, content) :=
    (formAt?_eq_some_iff regular).mpr ⟨other, same, standsOther⟩
  rw [first] at second
  cases second
  exact ⟨List.append_cancel_right same, rfl, rfl⟩

/-! ## Every place once -/

/-- What is listed once for every node is listed once in the tree, if a form lists it at extensions of its own path and
every other node at its own path. -/
theorem nodup_ofNodes {α : Type} {list : Path → Node → List (Path × α)}
    (beneath : ∀ path content, ∀ entry ∈ list path (.form content), ∃ rest, entry.1 = path.extend ⟨rest⟩)
    (here : ∀ path (node : Node), node.form? = none → ∀ entry ∈ list path node, entry.1 = path)
    (nodup : ∀ path (node : Node), node.Regular → ((list path node).map Prod.fst).Nodup) (path : Path) :
    (((node.nodes false path).flatMap fun entry => list entry.1 entry.2).map Prod.fst).Nodup := by
  have extending {path : Path} {node : Node} {entry : Path × α} (listed : entry ∈ list path node) :
      ∃ rest, entry.1 = path.extend ⟨rest⟩ := by
    cases isForm : node.form? with
    | some content =>
        obtain rfl := form?_eq_some_iff.mp isForm
        exact beneath path content entry listed
    | none => exact ⟨[], (here path node isForm entry listed).trans (Path.extend_root path).symm⟩
  induction node using branchInduction generalizing path with
  | step node ih =>
      rw [nodes_eq, List.flatMap_cons, List.map_append, List.flatMap_assoc, List.map_flatMap]
      have inBranch {branch : List String × Node} {place : Path} (listed : place ∈
          ((branch.2.nodes false (path.extend ⟨branch.1⟩)).flatMap fun entry => list entry.1 entry.2).map Prod.fst) :
          ∃ rest, place = path.extend ⟨branch.1 ++ rest⟩ := by
        obtain ⟨found, there, rfl⟩ := List.mem_map.mp listed
        obtain ⟨⟨outer, inner⟩, stands, inNode⟩ := List.mem_flatMap.mp there
        obtain ⟨front, rfl, -⟩ := mem_nodes_iff.mp stands
        obtain ⟨rest, same⟩ := extending inNode
        refine ⟨front ++ rest, same.trans ?_⟩
        rw [Path.extend_append, Path.extend_append]
      refine List.nodup_append'.mpr ⟨nodup path node regular, ?_, List.disjoint_left.mpr fun place own listed => ?_⟩
      · exact Path.nodup_flatMap_extend path Prod.fst regular.nodup_fronts
          (fun first inFirst second inSecond => length_front inFirst inSecond)
          (fun branch inside => ih branch inside (regular.branch inside) _)
          fun branch _ place listed => inBranch listed
      · -- only a node that is no form has branches, and it lists nothing but its own path
        obtain ⟨branch, inside, there⟩ := List.mem_flatMap.mp listed
        obtain ⟨rest, same⟩ := inBranch there
        obtain ⟨found, inOwn, rfl⟩ := List.mem_map.mp own
        obtain ⟨first, others, front⟩ := List.exists_cons_of_ne_nil (front_ne_nil inside)
        have notForm : node.form? = none := by
          cases node with
          | form content => cases inside
          | collection frame progress members => rfl
          | series frame template siblings => rfl
        rw [here path node notForm found inOwn, front] at same
        exact Path.extend_cons_ne same

/-- No two nodes stand at one place. -/
theorem nodup_nodes (path : Path) : ((node.nodes false path).map Prod.fst).Nodup := by
  have once := @nodup_ofNodes _ regular _ (fun path node => [(path, node)])
    (fun path _ _ listed => ⟨[], (congrArg Prod.fst (List.mem_singleton.mp listed)).trans (Path.extend_root path).symm⟩)
    (fun _ _ _ _ listed => congrArg Prod.fst (List.mem_singleton.mp listed))
    (fun _ _ _ => List.nodup_singleton _) path
  rwa [List.flatMap_singleton'] at once

/-- What is listed once in every form is listed once in the tree, if a form lists it at extensions of
its own path. -/
theorem nodup_ofForms {α : Type} {list : Path → Form → List (Path × α)}
    (beneath : ∀ path content, ∀ entry ∈ list path content, ∃ rest, entry.1 = path.extend ⟨rest⟩)
    (nodup : ∀ path content, Member.Regular content.members → ((list path content).map Prod.fst).Nodup)
    (path : Path) :
    (((node.forms false path).flatMap fun entry => list entry.1 entry.2).map Prod.fst).Nodup := by
  have once := @nodup_ofNodes _ regular _ (fun path node => node.form?.elim [] (list path))
    (fun path content entry listed => beneath path content entry listed)
    (fun _ node notForm entry listed => by simp [notForm] at listed) (fun path node regular => ?_) path
  · have sameLists : ∀ nodes : List (Path × Node),
        (nodes.filterMap fun entry => entry.2.form?.map (entry.1, ·)).flatMap (fun entry => list entry.1 entry.2) =
          nodes.flatMap fun entry => entry.2.form?.elim [] (list entry.1) := by
      intro nodes
      induction nodes with
      | nil => rfl
      | cons entry rest ih =>
          rw [List.filterMap_cons, List.flatMap_cons, ← ih]
          cases entry.2.form? <;> rfl
    exact (congrArg (fun entries => (entries.map Prod.fst).Nodup) (sameLists _)).mpr once
  · cases isForm : node.form? with
    | none => exact List.nodup_nil
    | some content =>
        obtain rfl := form?_eq_some_iff.mp isForm
        exact nodup path content regular.form

/-- No two fields stand at one place. -/
theorem nodup_fields (path : Path) : ((node.fields path).map Prod.fst).Nodup := by
  refine nodup_ofForms regular (fun path content entry listed => ?_)
    (fun path content members => Form.nodup_fields members path) path
  obtain ⟨names, same, -⟩ := Form.mem_fields_iff.mp listed
  exact ⟨names, same⟩

/-- No two groups stand at one place. -/
theorem nodup_groups (path : Path) : ((node.groups path).map Prod.fst).Nodup := by
  refine nodup_ofForms regular (fun path content entry listed => ?_)
    (fun path content members => Form.nodup_groups members path) path
  rcases Form.mem_groups_iff.mp listed with ⟨same, -⟩ | ⟨names, members, same, -⟩
  · exact ⟨[], same.trans (Path.extend_root path).symm⟩
  · exact ⟨names, same⟩

end Regular

end Formwork.Node
