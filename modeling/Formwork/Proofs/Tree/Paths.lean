import Formwork.Proofs.Tree.Remembering

/-!
# Paths and lookup in a tree

The path of a node, a group or a field is that of the root followed by the segments that lead to
it, so an element has the path of its parent followed by its name, with the index of a sibling in
between beneath a series. In a reachable tree no path is used twice within a kind, and a lookup at
a path answers exactly the element that has this path. The elements remember these very paths after
whatever siblings were added and removed, and so the search by remembered paths answers the same
(`Tree.Addressed`).
-/

set_option autoImplicit false

namespace Formwork.Tree

variable (tree : Tree)

/-- All nodes with their paths, those of pristine siblings included. -/
def nodes : List (Path × Node) := tree.root.nodes false tree.here

/-- All forms and fieldsets with their paths. -/
def groups : List (Path × Group) := tree.root.groups tree.here

/-- Paths are made of the names and indices that lead to an element, the elements of a tree remember
these paths, no two elements of a kind share one, and lookup answers what has the path. -/
structure Addressed (layout : Layout) : Prop where
  /-- A node has the path of the root followed by the names and sibling indices that lead to it. -/
  nodePaths : ∀ path node, (path, node) ∈ tree.nodes ↔
    ∃ segments, path = tree.here.extend ⟨segments⟩ ∧ tree.root.Stands segments node
  /-- A form has the path of its node, and a fieldset that of its form followed by names. -/
  groupPaths : ∀ path group, (path, group) ∈ tree.groups ↔
    ∃ front form, tree.root.Stands front (.form form) ∧
      ((path = tree.here.extend ⟨front⟩ ∧ group = form.group) ∨
        ∃ names members, path = tree.here.extend ⟨front ++ names⟩ ∧
          Member.Stands form.members names (.fieldset group members))
  /-- A field has the path of its form followed by the names that lead to it. -/
  fieldPaths : ∀ path field, (path, field) ∈ tree.fields ↔
    ∃ front form names, path = tree.here.extend ⟨front ++ names⟩ ∧
      tree.root.Stands front (.form form) ∧ Member.Stands form.members names (.field field)
  /-- Every element, those of templates included, remembers the path at which it would be built now. -/
  remembered : layout = tree.root.layout tree.here
  /-- In the order of rendering the nodes remember their paths. -/
  nodesRemember : layout.paths Layout.isNode = tree.nodes.map Prod.fst
  groupsRemember : layout.paths Layout.isGroup = tree.groups.map Prod.fst
  fieldsRemember : layout.paths Layout.isField = tree.fields.map Prod.fst
  nodesOnce : (tree.nodes.map Prod.fst).Nodup
  groupsOnce : (tree.groups.map Prod.fst).Nodup
  fieldsOnce : (tree.fields.map Prod.fst).Nodup
  nodeLookup : ∀ path node, tree.node? path = some node ↔ (path, node) ∈ tree.nodes
  groupLookup : ∀ path group, tree.group? path = some group ↔ (path, group) ∈ tree.groups
  fieldLookup : ∀ path field, tree.field? path = some field ↔ (path, field) ∈ tree.fields
  /-- The search by remembered paths finds a node exactly at its path. -/
  nodeSearch : ∀ path node, layout.node? tree.root path = some node ↔ (path, node) ∈ tree.nodes
  groupSearch : ∀ path group, layout.group? tree.root path = some group ↔ (path, group) ∈ tree.groups
  fieldSearch : ∀ path field, layout.field? tree.root path = some field ↔ (path, field) ∈ tree.fields

section Lookup

variable {tree} (regular : tree.root.Regular)
include regular

theorem node?_eq_some_iff {path : Path} {node : Node} :
    tree.node? path = some node ↔ (path, node) ∈ tree.nodes := by
  simp only [node?, Option.bind_eq_some_iff, below?_eq_some_iff, Node.get?_eq_some_iff regular,
    nodes, Node.mem_nodes_iff]

theorem group?_eq_some_iff {path : Path} {group : Group} :
    tree.group? path = some group ↔ (path, group) ∈ tree.groups := by
  simp only [group?, Option.bind_eq_some_iff, below?_eq_some_iff, Node.group?_eq_some_iff regular,
    groups, Node.mem_groups_iff]
  constructor
  · rintro ⟨segments, rfl, front, form, stands, ⟨rfl, same⟩ | ⟨names, members, rfl, member⟩⟩
    · exact ⟨segments, form, stands, .inl ⟨rfl, same⟩⟩
    · exact ⟨front, form, stands, .inr ⟨names, members, rfl, member⟩⟩
  · rintro ⟨front, form, stands, ⟨rfl, same⟩ | ⟨names, members, rfl, member⟩⟩
    · exact ⟨front, rfl, front, form, stands, .inl ⟨rfl, same⟩⟩
    · exact ⟨_, rfl, front, form, stands, .inr ⟨names, members, rfl, member⟩⟩

theorem field?_eq_some_iff {path : Path} {field : Field} :
    tree.field? path = some field ↔ (path, field) ∈ tree.fields := by
  simp only [field?, Option.bind_eq_some_iff, below?_eq_some_iff, Node.field?_eq_some_iff regular,
    fields, Node.mem_fields_iff]
  constructor
  · rintro ⟨_, rfl, front, form, names, rfl, stands⟩
    exact ⟨front, form, names, rfl, stands⟩
  · rintro ⟨front, form, names, rfl, stands⟩
    exact ⟨_, rfl, front, form, names, rfl, stands⟩

end Lookup

theorem addressed_of_remembers {tree : Tree} {layout : Layout} (remembers : tree.Remembers layout) :
    tree.Addressed layout := by
  obtain rfl := remembers.layout_eq
  have regular := remembers.reachable.regular
  exact {
    nodePaths := fun _ _ => Node.mem_nodes_iff
    groupPaths := fun _ _ => Node.mem_groups_iff
    fieldPaths := fun _ _ => Node.mem_fields_iff
    remembered := rfl
    nodesRemember := Node.paths_nodes tree.here tree.root
    groupsRemember := Node.paths_groups tree.here tree.root
    fieldsRemember := Node.paths_fields tree.here tree.root
    nodesOnce := Node.nodup_nodes regular tree.here
    groupsOnce := Node.nodup_groups regular tree.here
    fieldsOnce := Node.nodup_fields regular tree.here
    nodeLookup := fun _ _ => node?_eq_some_iff regular
    groupLookup := fun _ _ => group?_eq_some_iff regular
    fieldLookup := fun _ _ => field?_eq_some_iff regular
    nodeSearch := fun path node => by
      rw [layout, Node.node?_layout]
      exact node?_eq_some_iff regular
    groupSearch := fun path group => by
      rw [layout, Node.group?_layout]
      exact group?_eq_some_iff regular
    fieldSearch := fun path field => by
      rw [layout, Node.field?_layout]
      exact field?_eq_some_iff regular }

/-- In every reachable tree the paths are canonical and unique, and lookup is exact, whatever operations
have led to it. -/
theorem Reachable.addressed {tree : Tree} (reachable : tree.Reachable) :
    (∃ layout, tree.Remembers layout) ∧ ∀ layout, tree.Remembers layout → tree.Addressed layout :=
  ⟨reachable.remembers, fun _ => addressed_of_remembers⟩

/-- The orders remember their paths, and are addressed, after one was added behind the first. -/
theorem addressed_orders : ∃ tree, Tree.mount orders none = .ok tree ∧
    (∃ layout, (tree.after (.addSibling ⟨["shop"]⟩ (some 0))).Remembers layout) ∧
      ∀ layout, (tree.after (.addSibling ⟨["shop"]⟩ (some 0))).Remembers layout →
        (tree.after (.addSibling ⟨["shop"]⟩ (some 0))).Addressed layout := by
  obtain ⟨tree, mounted⟩ : ∃ tree, Tree.mount orders none = .ok tree := ⟨_, rfl⟩
  exact ⟨tree, mounted, Reachable.addressed (.after (.mounted mounted) _)⟩

end Formwork.Tree
