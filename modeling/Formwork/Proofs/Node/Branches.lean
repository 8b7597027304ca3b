import Mathlib.Data.List.Nodup
import Formwork.Proofs.Recursion

/-!
# One step down a node

`Node.branches` lists what stands directly beneath a node, each with the segments that lead
there: one name beneath a collection, an index and a name beneath a series. The enumeration of a
tree, the way along a path and the change of everything are described by what they do to the
branches, so that a collection and a series need not be told apart any more, and
`Node.branchInduction` is the induction that goes with this view.

If no two branches have the same segments, a change along a path changes one of them and leaves the
others as they are (`branches_along`).
-/

set_option autoImplicit false

namespace Formwork

open Formwork.Text

namespace Path

@[simp]
theorem extend_nil (path : Path) : path.extend ⟨[]⟩ = path := extend_root path

theorem extend_append (path : Path) (first second : List String) :
    (path.extend ⟨first⟩).extend ⟨second⟩ = path.extend ⟨first ++ second⟩ := by
  simp [extend]

theorem join_join (path : Path) (first second : String) :
    (path.join first).join second = path.extend ⟨[first, second]⟩ := by
  simp [join, extend]

theorem extend_join (above path : Path) (name : String) :
    (above.extend path).join name = above.extend (path.join name) := extend_assoc above path ⟨[name]⟩

/-- The proper beginnings of a path are what the path extends. -/
theorem mem_ancestors_iff {path outer : Path} :
    outer ∈ path.ancestors ↔ ∃ rest, rest ≠ [] ∧ path = outer.extend ⟨rest⟩ := by
  simp only [ancestors, List.mem_map, List.mem_reverse, List.mem_range]
  constructor
  · rintro ⟨length, short, rfl⟩
    refine ⟨path.segments.drop length, ?_, ?_⟩
    · simpa [List.drop_eq_nil_iff, size] using short
    · simp [extend, truncate]
  · rintro ⟨rest, some, rfl⟩
    refine ⟨outer.size, ?_, ?_⟩
    · simpa [size, extend] using List.length_pos_iff.mpr some
    · simp [truncate, extend, size]

theorem extend_injective {path first second : Path} (same : path.extend first = path.extend second) :
    first = second := by
  have segments : path.segments ++ first.segments = path.segments ++ second.segments :=
    congrArg Path.segments same
  cases first
  cases second
  simpa using segments

end Path

namespace Node

/-- What stands directly beneath a node, with the segments that lead there. -/
def branches : Node → List (List String × Node)
  | .form _ => []
  | .collection _ _ members => members.map fun entry => ([entry.1], entry.2)
  | .series _ _ siblings => siblings.zipIdx.flatMap fun entry =>
    entry.1.members.map fun member => ([indexText entry.2, member.1], member.2)

theorem mem_branches_collection {frame : Frame} {progress : Option Progress}
    {members : List (String × Node)} {branch : List String × Node} :
    branch ∈ (Node.collection frame progress members).branches ↔
      ∃ name, branch.1 = [name] ∧ (name, branch.2) ∈ members := by
  obtain ⟨front, inner⟩ := branch
  simp only [branches, List.mem_map, Prod.mk.injEq, Prod.exists]
  constructor
  · rintro ⟨name, node, inside, rfl, rfl⟩
    exact ⟨name, rfl, inside⟩
  · rintro ⟨name, rfl, inside⟩
    exact ⟨name, inner, inside, rfl, rfl⟩

theorem mem_branches_series {frame : Frame} {template : List (String × Node)}
    {siblings : List Sibling} {branch : List String × Node} :
    branch ∈ (Node.series frame template siblings).branches ↔
      ∃ index sibling name, siblings[index]? = some sibling ∧
        branch.1 = [indexText index, name] ∧ (name, branch.2) ∈ sibling.members := by
  obtain ⟨front, inner⟩ := branch
  simp only [branches, List.mem_flatMap, List.mem_map, Prod.mk.injEq, Prod.exists]
  constructor
  · rintro ⟨sibling, index, here, name, node, inside, rfl, rfl⟩
    exact ⟨index, sibling, name, List.mk_mem_zipIdx_iff_getElem?.mp here, rfl, inside⟩
  · rintro ⟨index, sibling, name, here, rfl, inside⟩
    exact ⟨sibling, index, List.mk_mem_zipIdx_iff_getElem?.mpr here, name, inner, inside, rfl, rfl⟩

/-- Induction over nodes that does not look into templates. -/
@[elab_as_elim]
theorem branchInduction {motive : Node → Prop}
    (step : ∀ node : Node, (∀ branch ∈ node.branches, motive branch.2) → motive node)
    (node : Node) : motive node := by
  induction node using Node.induction with
  | form content => exact step _ (by simp [branches])
  | collection frame progress members ih =>
      refine step _ ?_
      intro branch inside
      obtain ⟨name, -, there⟩ := mem_branches_collection.mp inside
      exact ih (name, branch.2) there
  | series frame template siblings _ ih =>
      refine step _ ?_
      intro branch inside
      obtain ⟨index, sibling, name, here, -, there⟩ := mem_branches_series.mp inside
      exact ih sibling (List.mem_of_getElem? here) (name, branch.2) there

/-! ## Enumeration -/

theorem children_eq (path : Path) (node : Node) :
    node.children path =
      node.branches.map fun branch => (path.extend ⟨branch.1⟩, branch.2) := by
  cases node with
  | form content => rfl
  | collection frame progress members =>
      simp only [children, branches, List.map_map]
      rfl
  | series frame template siblings =>
      simp only [children, branches, List.map_flatMap, List.map_map, Path.join_join]
      rfl

/-- A node stands at its own path, and everything else beneath its branches. -/
theorem nodes_eq (path : Path) (node : Node) :
    node.nodes false path = (path, node) ::
      node.branches.flatMap fun branch => branch.2.nodes false (path.extend ⟨branch.1⟩) := by
  cases node with
  | form content => rfl
  | collection frame progress members =>
      simp only [nodes, memberNodes_eq, branches, List.flatMap_map]
      rfl
  | series frame template siblings =>
      simp only [nodes, siblingNodes_eq, memberNodes_eq, branches, List.flatMap_assoc,
        List.flatMap_map, Bool.false_and, Bool.false_eq_true, if_false, Path.join_join]

theorem form?_eq_some_iff {node : Node} {content : Form} :
    node.form? = some content ↔ node = .form content := by
  cases node with
  | form other => simp only [form?, Option.some.injEq, Node.form.injEq]
  | collection frame progress members => simp only [form?, reduceCtorEq]
  | series frame template siblings => simp only [form?, reduceCtorEq]

/-- The node as a form, listed at its path. -/
theorem forms_form (path : Path) (content : Form) :
    (Node.form content).forms false path = [(path, content)] := rfl

theorem forms_eq {node : Node} (notForm : node.form? = none) (path : Path) :
    node.forms false path =
      node.branches.flatMap fun branch => branch.2.forms false (path.extend ⟨branch.1⟩) := by
  simp only [forms, nodes_eq path node, List.filterMap_cons, notForm, Option.map_none,
    List.filterMap_flatMap]

/-! ## Lookup -/

/-- The first branch on the way along some segments, and the segments that remain behind it. -/
def next? (segments : List String) (node : Node) : Option (List String × Node) :=
  node.branches.findSome? fun branch =>
    if branch.1.isPrefixOf segments then some (segments.drop branch.1.length, branch.2) else none

theorem next?_collection (frame : Frame) (progress : Option Progress)
    (members : List (String × Node)) (segments : List String) :
    (Node.collection frame progress members).next? segments =
      match segments with
      | [] => none
      | first :: rest => (Assoc.get? first members).map (rest, ·) := by
  simp only [next?, branches]
  induction members with
  | nil => cases segments <;> rfl
  | cons entry others ih =>
      obtain ⟨name, node⟩ := entry
      cases segments with
      | nil => simpa using ih
      | cons first rest =>
          by_cases same : name = first
          · simp [Assoc.get?, same]
          · simpa [Assoc.get?, same] using ih

/-- Only the sibling with the right index can hold the next branch. -/
theorem findSome?_siblings (index name : String) (rest : List String) (siblings : List Sibling)
    (start : Nat) :
    ((siblings.zipIdx start).flatMap fun entry =>
        entry.1.members.map fun member => ([indexText entry.2, member.1], member.2)).findSome?
      (fun branch : List String × Node =>
        if branch.1.isPrefixOf (index :: name :: rest) then
          some ((index :: name :: rest).drop branch.1.length, branch.2)
        else none) =
      (canonicalIndex? index).bind fun position =>
        if start ≤ position then
          siblings[position - start]?.bind fun sibling =>
            (Assoc.get? name sibling.members).map (rest, ·)
        else none := by
  have here (position : Nat) (members : List (String × Node)) :
      (members.map fun member => ([indexText position, member.1], member.2)).findSome?
        (fun branch : List String × Node =>
          if branch.1.isPrefixOf (index :: name :: rest) then
            some ((index :: name :: rest).drop branch.1.length, branch.2)
          else none) =
        if index = indexText position then (Assoc.get? name members).map (rest, ·) else none := by
    induction members with
    | nil => simp [Assoc.get?]
    | cons entry others ih =>
        obtain ⟨other, node⟩ := entry
        by_cases sameIndex : index = indexText position
        · by_cases same : other = name
          · simp [Assoc.get?, sameIndex, same]
          · simpa [Assoc.get?, sameIndex, same] using ih
        · simpa [sameIndex, Ne.symm sameIndex] using ih
  induction siblings generalizing start with
  | nil => simp
  | cons sibling others ih =>
      rw [List.zipIdx_cons, List.flatMap_cons, List.findSome?_append, here, ih]
      cases found : canonicalIndex? index with
      | none =>
          have other : index ≠ indexText start := fun same => by
            simp [canonicalIndex?_eq_some_iff.mpr same] at found
          simp [other]
      | some position =>
          have text : index = indexText position := canonicalIndex?_eq_some_iff.mp found
          by_cases same : position = start
          · subst same
            have notLater : ¬ position + 1 ≤ position := by omega
            rw [if_pos text, Option.bind_some, Option.bind_some, if_neg notLater, if_pos (Nat.le_refl position)]
            simp
          · have other : index ≠ indexText start := fun sameText =>
              same (indexText_injective (text.symm.trans sameText))
            rw [if_neg other, Option.bind_some, Option.bind_some]
            by_cases later : start + 1 ≤ position
            · have shifted : position - start = position - (start + 1) + 1 := by omega
              have atLeast : start ≤ position := by omega
              rw [if_pos later, if_pos atLeast, shifted]
              simp
            · have before : ¬ start ≤ position := by omega
              rw [if_neg later, if_neg before]
              simp

theorem next?_series (frame : Frame) (template : List (String × Node)) (siblings : List Sibling)
    (segments : List String) :
    (Node.series frame template siblings).next? segments =
      match segments with
      | index :: name :: rest =>
        (canonicalIndex? index).bind fun position =>
          siblings[position]?.bind fun sibling =>
            (Assoc.get? name sibling.members).map (rest, ·)
      | _ => none := by
  have tooShort (short : segments.length < 2) :
      (Node.series frame template siblings).next? segments = none := by
    refine List.findSome?_eq_none_iff.mpr fun branch inside => if_neg fun onTheWay => ?_
    obtain ⟨index, sibling, name, -, front, -⟩ := mem_branches_series.mp inside
    have atMost := (List.isPrefixOf_iff_prefix.mp onTheWay).length_le
    rw [front, List.length_cons, List.length_singleton] at atMost
    omega
  match segments with
  | [] => exact tooShort (by simp)
  | [index] => exact tooShort (by simp)
  | index :: name :: rest =>
      simp only [next?, branches]
      rw [findSome?_siblings]
      simp

theorem lineage_eq (segments : List String) (node : Node) :
    node.lineage segments = (segments, node) ::
      match node.next? segments with
      | some (rest, inner) => inner.lineage rest
      | none => [] := by
  cases node with
  | form content => rfl
  | collection frame progress members =>
      rw [lineage, memberLineage_eq, next?_collection]
      cases segments with
      | nil => rfl
      | cons first rest =>
          cases found : Assoc.get? first members <;> simp [found]
  | series frame template siblings =>
      rw [next?_series]
      match segments with
      | [] => rfl
      | [index] =>
          rw [lineage]
          cases canonicalIndex? index with
          | none => rfl
          | some position =>
              simp only [siblingLineage_eq, memberLineage_eq]
              cases siblings[position]? <;> rfl
      | index :: name :: rest =>
          rw [lineage]
          cases read : canonicalIndex? index with
          | none => simp [read]
          | some position =>
              cases stands : siblings[position]? with
              | none => simp [read, siblingLineage_eq, stands]
              | some sibling =>
                  cases found : Assoc.get? name sibling.members <;>
                    simp [read, siblingLineage_eq, stands, memberLineage_eq, found]

@[simp]
theorem get?_nil (node : Node) : node.get? [] = some node := by
  rw [get?, lineage_eq]
  rfl

/-- The node at some segments lies beneath the next branch. -/
theorem get?_cons (first : String) (rest : List String) (node : Node) :
    node.get? (first :: rest) =
      (node.next? (first :: rest)).bind fun branch => branch.2.get? branch.1 := by
  rw [get?, lineage_eq, List.findSome?_cons]
  cases node.next? (first :: rest) with
  | none => rfl
  | some branch => rfl

theorem formAt?_form (segments : List String) (content : Form) :
    (Node.form content).formAt? segments = some (segments, content) := rfl

/-- The form on the way along some segments lies beneath the next branch. -/
theorem formAt?_eq {node : Node} (notForm : node.form? = none) (segments : List String) :
    node.formAt? segments =
      (node.next? segments).bind fun branch => branch.2.formAt? branch.1 := by
  rw [formAt?, lineage_eq, List.findSome?_cons]
  simp only [notForm, Option.map_none]
  cases node.next? segments with
  | none => rfl
  | some branch => rfl

/-! ## Change -/

/-- Items that are changed by what their number says keep their numbers. -/
theorem zipIdx_map_zipIdx {α β : Type} (items : List α) (start : Nat) (change : α × Nat → β) :
    ((items.zipIdx start).map change).zipIdx start =
      (items.zipIdx start).map fun entry => (change entry, entry.2) := by
  induction items generalizing start with
  | nil => rfl
  | cons item rest ih => simp [ih]

/-- Changing everything keeps the marks of siblings. -/
theorem isPristine_mapSiblings (liveOnly : Bool) (onForm : Path → Form → Form) (onFrame : Path → Frame → Frame)
    (path : Path) (siblings : List Sibling) :
    (mapSiblings liveOnly onForm onFrame path 0 siblings).map Sibling.isPristine =
      siblings.map Sibling.isPristine := by
  rw [mapSiblings_eq, List.map_map, ← List.zipIdx_map_fst 0 siblings, List.map_map]
  simp [Function.comp_def]

/-- Changing everything changes every branch where it stands. -/
theorem branches_map (onForm : Path → Form → Form) (onFrame : Path → Frame → Frame) (path : Path)
    (node : Node) :
    (node.map false onForm onFrame path).branches = node.branches.map fun branch =>
      (branch.1, branch.2.map false onForm onFrame (path.extend ⟨branch.1⟩)) := by
  cases node with
  | form content => rfl
  | collection frame progress members =>
      simp only [map, mapMembers_eq, branches, List.map_map]
      rfl
  | series frame template siblings =>
      simp only [map, mapSiblings_eq, mapMembers_eq, branches, Bool.false_and, Bool.false_eq_true,
        if_false, List.map_flatMap, List.map_map]
      rw [zipIdx_map_zipIdx, List.flatMap_map]
      simp only [Sibling.members_mk, List.map_map]
      refine List.flatMap_congr fun entry _ => List.map_congr_left ?_
      intro member _
      simp [Path.join_join]

/-- No two members of a collection whose branches are distinct have the same name. -/
theorem nodup_keys_collection {frame : Frame} {progress : Option Progress}
    {members : List (String × Node)}
    (forked : ((Node.collection frame progress members).branches.map Prod.fst).Nodup) :
    (Assoc.keys members).Nodup := by
  have fronts : ((Node.collection frame progress members).branches.map Prod.fst) =
      (Assoc.keys members).map fun name => [name] := by
    simp [branches, Assoc.keys]
  rw [fronts] at forked
  exact forked.of_map

/-- No two members of a sibling have the same name if the branches of the series are distinct. -/
theorem nodup_keys_series {frame : Frame} {template : List (String × Node)}
    {siblings : List Sibling}
    (forked : ((Node.series frame template siblings).branches.map Prod.fst).Nodup)
    {entry : Sibling × Nat} (inside : entry ∈ siblings.zipIdx) :
    (Assoc.keys entry.1.members).Nodup := by
  have fronts : ((Node.series frame template siblings).branches.map Prod.fst) =
      siblings.zipIdx.flatMap fun entry =>
        (Assoc.keys entry.1.members).map fun name => [indexText entry.2, name] := by
    simp only [branches, List.map_flatMap, List.map_map, Assoc.keys]
    rfl
  rw [fronts] at forked
  exact ((List.nodup_flatMap.mp forked).1 entry inside).of_map

theorem zipIdx_modify {α : Type} (items : List α) (position : Nat) (change : α → α) :
    (items.modify position change).zipIdx =
      items.zipIdx.map fun entry => (if entry.2 = position then change entry.1 else entry.1, entry.2) := by
  refine List.ext_getElem? ?_
  intro index
  simp only [List.getElem?_zipIdx, List.getElem?_modify, List.getElem?_map, Nat.zero_add,
    Option.map_map]
  cases items[index]? with
  | none => rfl
  | some item => by_cases same : position = index <;> simp [same, Ne.symm]

/-- A change along a path that keeps the branches of every node on the way changes the branch on
the way, and no other one. -/
theorem branches_along {change : List String → Node → Node} {segments : List String} {node : Node}
    (stable : ∀ inner : Node, (change segments inner).branches = inner.branches)
    (forked : (node.branches.map Prod.fst).Nodup) :
    (node.along change segments).branches = node.branches.map fun branch =>
      (branch.1,
        if branch.1.isPrefixOf segments then
          branch.2.along change (segments.drop branch.1.length)
        else branch.2) := by
  cases node with
  | form content => rw [along, stable]; rfl
  | collection frame progress members =>
      rw [along, stable, alongMembers_eq]
      cases segments with
      | nil => simp [branches]
      | cons first rest =>
          simp only [Assoc.modify_eq_map (nodup_keys_collection forked), branches, List.map_map]
          refine List.map_congr_left ?_
          intro entry _
          by_cases same : entry.1 = first <;> simp [same]
  | series frame template siblings =>
      cases segments with
      | nil => rw [along, stable]; simp [branches, List.map_flatMap, Function.comp_def]
      | cons index rest =>
          rw [along, stable]
          simp only [branches, List.map_flatMap, List.map_map]
          cases read : canonicalIndex? index with
          | none =>
              have apart (position : Nat) : index ≠ indexText position := fun same => by
                simp [canonicalIndex?_eq_some_iff.mpr same] at read
              refine List.flatMap_congr fun entry _ => List.map_congr_left ?_
              intro member _
              simp [Ne.symm (apart entry.2)]
          | some position =>
              obtain rfl : index = indexText position := canonicalIndex?_eq_some_iff.mp read
              simp only [alongSiblings_eq, zipIdx_modify, List.flatMap_map]
              refine List.flatMap_congr ?_
              intro entry inside
              by_cases here : entry.2 = position
              · subst here
                cases rest with
                | nil => simp [alongMembers_eq]
                | cons name rest =>
                    simp only [if_true, Sibling.members_mk, alongMembers_eq,
                      Assoc.modify_eq_map (nodup_keys_series forked inside), List.map_map]
                    refine List.map_congr_left ?_
                    intro member _
                    by_cases same : member.1 = name <;> simp [same]
              · have apart : indexText entry.2 ≠ indexText position := fun same =>
                  here (indexText_injective same)
                simp [here, apart]

/-! ## Change of a single node -/

section Modify

variable {change : Node → Node}

theorem modify_nil (node : Node) : node.modify change [] = change node := by
  cases node with
  | form content => rfl
  | collection frame progress members => simp only [modify, along, alongMembers_eq, List.isEmpty_nil, if_true]
  | series frame template siblings => rfl

theorem modify_collection (frame : Frame) (progress : Option Progress) (members : List (String × Node))
    (name : String) (rest : List String) :
    (Node.collection frame progress members).modify change (name :: rest) =
      .collection frame progress (Assoc.modify name (modify change rest) members) := by
  simp only [modify, along, alongMembers_eq, List.isEmpty_cons, Bool.false_eq_true, if_false]

/-- Only the sibling with the index changes, and in it only the member with the next name. -/
theorem modify_series (frame : Frame) (template : List (String × Node)) (siblings : List Sibling)
    (index : String) (rest : List String) :
    (Node.series frame template siblings).modify change (index :: rest) =
      .series frame template (siblings.mapIdx fun position sibling =>
        if index = indexText position then
          .mk sibling.isPristine (rest.head?.elim sibling.members fun name =>
            Assoc.modify name (modify change rest.tail) sibling.members)
        else sibling) := by
  simp only [modify, along, alongSiblings_eq, alongMembers_eq, List.isEmpty_cons, Bool.false_eq_true, if_false]
  refine congrArg _ (List.ext_getElem? ?_)
  intro position
  rw [List.getElem?_mapIdx]
  by_cases here : index = indexText position
  · subst here
    rw [canonicalIndex?_eq_some_iff.mpr rfl]
    simp only [List.getElem?_modify, if_true, Option.map_eq_map]
    cases rest with
    | nil => rfl
    | cons name rest => rfl
  · simp only [if_neg here, Option.map_id']
    cases read : canonicalIndex? index with
    | none => rfl
    | some other =>
        have differs : other ≠ position := by
          rintro rfl
          exact here (canonicalIndex?_eq_some_iff.mp read)
        simp only [List.getElem?_modify, if_neg differs, Option.map_eq_map, Option.map_id']

/-- A change along a path into a sibling replaces this sibling. -/
theorem modify_sibling {siblings : List Sibling} {position : Nat} {sibling : Sibling}
    (there : siblings[position]? = some sibling) (frame : Frame) (template : List (String × Node)) (name : String)
    (rest : List String) : (Node.series frame template siblings).modify change (indexText position :: name :: rest) =
      .series frame template (siblings.set position
        (.mk sibling.isPristine (Assoc.modify name (modify change rest) sibling.members))) := by
  rw [modify_series]
  refine congrArg _ (List.ext_getElem? fun other => ?_)
  rw [List.getElem?_mapIdx, List.getElem?_set]
  by_cases here : position = other
  · subst here
    rw [if_pos rfl, if_pos (List.getElem?_eq_some_iff.mp there).1, there, Option.map_some, if_pos rfl]
    rfl
  · have apart : ¬ indexText position = indexText other := fun same => here (indexText_injective same)
    simp only [if_neg here, if_neg apart, Option.map_id']

end Modify

/-- Two changes that agree on the node at some segments change the tree in the same way. -/
theorem modify_congr {first second : Node → Node} {segments : List String} {node : Node}
    (agree : ∀ inner, node.get? segments = some inner → first inner = second inner) :
    node.modify first segments = node.modify second segments := by
  induction node using Node.induction generalizing segments with
  | form content =>
      cases segments with
      | nil => rw [modify_nil, modify_nil, agree _ (get?_nil _)]
      | cons name rest => rfl
  | collection frame progress members ih =>
      cases segments with
      | nil => rw [modify_nil, modify_nil, agree _ (get?_nil _)]
      | cons name rest =>
          rw [modify_collection, modify_collection]
          refine congrArg _ (Assoc.modify_congr ?_)
          intro child found
          refine ih (name, child) (Assoc.mem_of_get?_eq_some found) fun inner there => agree inner ?_
          rw [get?_cons, next?_collection]
          simpa [found] using there
  | series frame template siblings _ ih =>
      cases segments with
      | nil => rw [modify_nil, modify_nil, agree _ (get?_nil _)]
      | cons index rest =>
          rw [modify_series, modify_series]
          refine congrArg _ (List.ext_getElem? ?_)
          intro position
          rw [List.getElem?_mapIdx, List.getElem?_mapIdx]
          cases stands : siblings[position]? with
          | none => rfl
          | some sibling =>
              simp only [Option.map_some]
              split
              · rename_i here
                subst here
                cases rest with
                | nil => rfl
                | cons name rest =>
                    refine congrArg some (congrArg _ (Assoc.modify_congr ?_))
                    intro child found
                    refine ih sibling (List.mem_of_getElem? stands) (name, child)
                      (Assoc.mem_of_get?_eq_some found) fun inner there => agree inner ?_
                    rw [get?_cons, next?_series]
                    simpa [stands, found, canonicalIndex?_eq_some_iff.mpr rfl] using there
              · rfl

/-- A change along a path that leaves every node on the way as it is changes nothing. -/
theorem along_eq_self {change : List String → Node → Node} {segments : List String} {node : Node}
    (same : ∀ entry ∈ node.lineage segments, change entry.1 entry.2 = entry.2) :
    node.along change segments = node := by
  have here {segments : List String} {node : Node}
      (same : ∀ entry ∈ node.lineage segments, change entry.1 entry.2 = entry.2) : change segments node = node :=
    same (segments, node) (by rw [lineage_eq]; exact List.mem_cons_self)
  have beneath {segments rest : List String} {node inner : Node}
      (same : ∀ entry ∈ node.lineage segments, change entry.1 entry.2 = entry.2)
      (next : node.next? segments = some (rest, inner)) :
      ∀ entry ∈ inner.lineage rest, change entry.1 entry.2 = entry.2 := by
    intro entry among
    refine same entry ?_
    rw [lineage_eq, next]
    exact List.mem_cons_of_mem _ among
  induction node using Node.induction generalizing segments with
  | form content => exact here same
  | collection frame progress members ih =>
      have members : alongMembers change segments members = members := by
        rw [alongMembers_eq]
        cases segments with
        | nil => rfl
        | cons first rest =>
            refine Assoc.modify_eq_self_of_get? fun inner found => ?_
            exact ih (first, inner) (Assoc.mem_of_get?_eq_some found)
              (beneath same (by rw [next?_collection]; simp [found]))
      rw [along, members]
      exact here same
  | series frame template siblings _ ih =>
      cases segments with
      | nil => exact here same
      | cons index rest =>
          rw [along]
          cases read : canonicalIndex? index with
          | none => exact here same
          | some position =>
              have siblings : alongSiblings change rest position siblings = siblings := by
                rw [alongSiblings_eq]
                refine List.ext_getElem? fun other => ?_
                rw [List.getElem?_modify]
                cases stands : siblings[other]? with
                | none => simp
                | some sibling =>
                    obtain ⟨pristine, members⟩ := sibling
                    by_cases reached : position = other
                    · subst reached
                      have members : alongMembers change rest members = members := by
                        rw [alongMembers_eq]
                        cases rest with
                        | nil => rfl
                        | cons name rest =>
                            refine Assoc.modify_eq_self_of_get? fun inner found => ?_
                            refine ih _ (List.mem_of_getElem? stands) (name, inner) (Assoc.mem_of_get?_eq_some found)
                              (beneath same ?_)
                            rw [next?_series]
                            simp [read, stands, found]
                      simp [members]
                    · simp [reached]
              dsimp only
              rw [siblings]
              exact here same

/-- To change a node to itself leaves everything as it is. -/
theorem modify_id (segments : List String) (node : Node) : node.modify id segments = node :=
  along_eq_self fun entry _ => by split <;> rfl

/-- To put the node at some segments where it is leaves everything as it is. -/
theorem modify_self {segments : List String} {node inner : Node} (found : node.get? segments = some inner) :
    node.modify (fun _ => inner) segments = node := by
  calc node.modify (fun _ => inner) segments
      = node.modify id segments := modify_congr fun other there => Option.some.inj (found.symm.trans there)
    _ = node := modify_id segments node

end Node

end Formwork
