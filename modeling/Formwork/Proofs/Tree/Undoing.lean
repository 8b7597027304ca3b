import Formwork.Proofs.Node.Renumbering
import Formwork.Proofs.Tree.Newcomers
import Formwork.Proofs.Tree.Sound

/-!
# Taking back a sibling that was added

A sibling that is added to a series stands between the others, which come under other indices and remember other
paths, with everything beneath them. They are not changed in any other way (`Node.Renumbered`), so taking out the new
sibling again leaves the series as it was: as many live siblings are left as there were before, which a series of a
reachable tree never has too few of, and closing the gap takes every index back (`Tree.Reachable.reversible`).

This holds of every series that occurs in a tree, also in a sibling or in a template of another one
(`Node.Occurs`).
-/

set_option autoImplicit false

namespace Formwork

open Formwork.Text

/-! ## Nodes with what they remember -/

namespace Layout

/-- What the template of a series remembers. -/
def template : Layout → List (String × Layout)
  | .series _ template _ => template
  | _ => []

/-- What the siblings of a series remember. -/
def siblings : Layout → List (List (String × Layout))
  | .series _ _ siblings => siblings
  | _ => []

end Layout

namespace Node

/-- A node in another one, at whatever depth and also in a template, with the part of a layout that belongs to it. -/
inductive Occurs : Layout → Node → Layout → Node → Prop where
  | here (layout : Layout) (node : Node) : Occurs layout node layout node
  | member {path : Path} {parts : List (String × Layout)} {frame : Frame} {progress : Option Progress}
      {members : List (String × Node)} {index : Nat} {part : String × Layout} {entry : String × Node}
      {own : Layout} {inner : Node} (remembered : parts[index]? = some part) (there : members[index]? = some entry)
      (within : Occurs part.2 entry.2 own inner) :
      Occurs (.collection path parts) (.collection frame progress members) own inner
  | template {path : Path} {parts : List (String × Layout)} {others : List (List (String × Layout))} {frame : Frame}
      {template : List (String × Node)} {siblings : List Sibling} {index : Nat} {part : String × Layout}
      {entry : String × Node} {own : Layout} {inner : Node} (remembered : parts[index]? = some part)
      (there : template[index]? = some entry) (within : Occurs part.2 entry.2 own inner) :
      Occurs (.series path parts others) (.series frame template siblings) own inner
  | sibling {path : Path} {copies : List (String × Layout)} {others : List (List (String × Layout))} {frame : Frame}
      {template : List (String × Node)} {siblings : List Sibling} {number index : Nat}
      {parts : List (String × Layout)} {sibling : Sibling} {part : String × Layout} {entry : String × Node}
      {own : Layout} {inner : Node} (rememberedSibling : others[number]? = some parts)
      (stands : siblings[number]? = some sibling) (remembered : parts[index]? = some part)
      (there : sibling.members[index]? = some entry) (within : Occurs part.2 entry.2 own inner) :
      Occurs (.series path copies others) (.series frame template siblings) own inner

theorem getElem?_layoutMembers (path : Path) (members : List (String × Node)) (index : Nat) :
    (layoutMembers path members)[index]? =
      members[index]?.map fun entry => (entry.1, entry.2.layout (path.join entry.1)) := by
  rw [layoutMembers_eq, List.getElem?_map]

namespace Occurs

variable {layout own : Layout} {node inner : Node}

theorem sound (occurs : Occurs layout node own inner) (sound : node.Sound) : inner.Sound := by
  induction occurs with
  | here => exact sound
  | member _ there _ ih =>
      cases sound with
      | collection _ inner => exact ih (inner _ (List.mem_of_getElem? there))
  | template _ there _ ih =>
      cases sound with
      | series _ inTemplate => exact ih (inTemplate _ (List.mem_of_getElem? there))
  | sibling _ stands _ there _ ih =>
      cases sound with
      | series _ _ _ inner => exact ih (inner _ (List.mem_of_getElem? stands) _ (List.mem_of_getElem? there))

theorem stocked (occurs : Occurs layout node own inner) (stocked : node.Stocked) : inner.Stocked := by
  induction occurs with
  | here => exact stocked
  | member _ there _ ih =>
      cases stocked with
      | collection inner => exact ih (inner _ (List.mem_of_getElem? there))
  | template _ there _ ih =>
      cases stocked with
      | series unused _ =>
          obtain ⟨_, _, _, built⟩ := unused.exists_build _ (List.mem_of_getElem? there)
          exact ih (build_grown stocked_grows built).1
  | sibling _ stands _ there _ ih =>
      cases stocked with
      | series _ inner => exact ih (inner _ (List.mem_of_getElem? stands) _ (List.mem_of_getElem? there))

/-- A node in one that remembers where it stands remembers where it stands itself. -/
theorem exists_layout {path : Path} (occurs : Occurs (node.layout path) node own inner) :
    ∃ place, own = inner.layout place := by
  generalize remembers : node.layout path = layout at occurs
  induction occurs generalizing path with
  | here => exact ⟨path, remembers.symm⟩
  | member remembered there _ ih =>
      cases remembers
      rw [getElem?_layoutMembers, there] at remembered
      cases remembered
      exact ih rfl
  | template remembered there _ ih =>
      cases remembers
      rw [getElem?_layoutMembers, there] at remembered
      cases remembered
      exact ih rfl
  | sibling rememberedSibling stands remembered there _ ih =>
      cases remembers
      rw [getElem?_layoutSiblings, stands] at rememberedSibling
      cases rememberedSibling
      rw [getElem?_layoutMembers, there] at remembered
      cases remembered
      exact ih rfl

end Occurs

/-- What stands in a node occurs in it, and remembers its place. -/
theorem Stands.occurs {node inner : Node} {segments : List String} (stands : node.Stands segments inner) (path : Path) :
    Occurs (node.layout path) node (inner.layout (path.extend ⟨segments⟩)) inner := by
  induction stands generalizing path with
  | here node =>
      rw [Path.extend_nil]
      exact .here _ _
  | member inside _ ih =>
      obtain ⟨index, there⟩ := List.getElem?_of_mem inside
      rw [← Path.join_extend]
      exact .member (by rw [getElem?_layoutMembers, there]; rfl) there (ih _)
  | sibling found inside _ ih =>
      obtain ⟨index, there⟩ := List.getElem?_of_mem inside
      rw [← Path.join_extend, ← Path.join_extend]
      exact .sibling (by rw [getElem?_layoutSiblings, found]; rfl) found
        (by rw [getElem?_layoutMembers, there]; rfl) there (ih _)

/-! ## Siblings under other indices -/

/-- Some siblings of a series come under other indices. Each of them is the same afterwards in everything that it
holds, and the paths that it remembers, at every depth and in every template, are those of its members beneath its new
index instead of the old one. -/
structure Renumbered (move : Nat → Option Nat) (own later : Layout) (siblings others : List Sibling) : Prop where
  path : later.path = own.path
  template : later.template = own.template
  stays : ∀ number moved sibling, move number = some moved → siblings[number]? = some sibling →
    others[moved]? = some sibling
  moves : ∀ number moved sibling, move number = some moved → siblings[number]? = some sibling →
    own.siblings[number]? = some (layoutMembers (own.path.join (indexText number)) sibling.members) ∧
      later.siblings[moved]? = some (layoutMembers (own.path.join (indexText moved)) sibling.members)

section Series

variable {frame : Frame} {template : List (String × Node)} {siblings others : List Sibling}

/-- Siblings are renumbered if each stands under its new index, and everything remembers where it stands. -/
theorem renumbered_layout {move : Nat → Option Nat}
    (stays : ∀ number moved sibling, move number = some moved → siblings[number]? = some sibling →
      others[moved]? = some sibling) (path : Path) :
    Renumbered move ((Node.series frame template siblings).layout path)
      ((Node.series frame template others).layout path) siblings others where
  path := rfl
  template := rfl
  stays := stays
  moves number moved sibling goes there := by
    have before := getElem?_layoutSiblings path siblings number
    have after := getElem?_layoutSiblings path others moved
    rw [there] at before
    rw [stays number moved sibling goes there] at after
    exact ⟨before, after⟩

/-- What a series is after a sibling was added. -/
structure Extended (own : Layout) (frame : Frame) (template : List (String × Node)) (siblings : List Sibling)
    (behind : Option Nat) (extended : Node) (index : Nat) : Prop where
  /-- The new sibling comes right behind the given one, or at the end. -/
  position : index = behind.elim siblings.length (· + 1)
  inside : index ≤ siblings.length
  /-- It is a copy of the template, not pristine, and it is all that is new. -/
  inserted : extended = .series frame template (siblings.insertIdx index (.mk false template))
  /-- The template is as it was built. -/
  unused : Unused template
  /-- The copy remembers the paths of the new index. -/
  copied : (own.addSibling behind).siblings[index]? = some (layoutMembers (own.path.join (indexText index)) template)
  /-- The other siblings make room. -/
  others : Renumbered (openGap index) own (own.addSibling behind) siblings
    (siblings.insertIdx index (.mk false template))
  /-- Everything remembers where it stands now. -/
  remembered : own.addSibling behind = extended.layout own.path

/-- What a series is after a sibling was removed. -/
structure Reduced (own : Layout) (frame : Frame) (template : List (String × Node)) (siblings : List Sibling)
    (index : Nat) (reduced : Node) : Prop where
  inside : index < siblings.length
  /-- Nothing but the sibling is gone. -/
  erased : reduced = .series frame template (siblings.eraseIdx index)
  /-- The other siblings close the gap. -/
  others : Renumbered (closeGap index) own (own.removeSibling index) siblings (siblings.eraseIdx index)
  /-- Everything remembers where it stands now. -/
  remembered : own.removeSibling index = reduced.layout own.path

/-- A series whose additions can all be taken back. -/
structure Reversible (own : Layout) (frame : Frame) (template : List (String × Node)) (siblings : List Sibling) :
    Prop where
  added : ∀ behind extended index,
    (Node.series frame template siblings).addSibling own.path behind = .ok (extended, index) →
      Extended own frame template siblings behind extended index
  /-- A sibling that was added can be removed, and then nothing has changed, not even a path that is remembered. -/
  undone : ∀ behind extended index,
    (Node.series frame template siblings).addSibling own.path behind = .ok (extended, index) →
      extended.removeSibling own.path index = .ok (.series frame template siblings) ∧
        (own.addSibling behind).removeSibling index = own
  removed : ∀ index reduced, (Node.series frame template siblings).removeSibling own.path index = .ok reduced →
    Reduced own frame template siblings index reduced

/-- A sibling is removed exactly if it is there and enough live ones are left. -/
theorem removeSibling_series_iff {path : Path} {index : Nat} {reduced : Node} :
    (Node.series frame template siblings).removeSibling path index = .ok reduced ↔
      index < siblings.length ∧ frame.least ≤ liveCount (siblings.eraseIdx index) ∧
        reduced = .series frame template (siblings.eraseIdx index) := by
  unfold removeSibling
  dsimp only
  split
  · rename_i outside
    simp [Nat.not_lt.mpr outside]
  · rename_i inside
    split
    · rename_i few
      simp [Nat.not_le.mpr few]
    · rename_i enough
      simp [Nat.not_le.mp inside, Nat.not_lt.mp enough, eq_comm]

theorem Sound.enough (sound : (Node.series frame template siblings).Sound) : frame.least ≤ liveCount siblings := by
  cases sound with
  | series _ _ _ _ enough _ => exact enough

theorem Stocked.unused (stocked : (Node.series frame template siblings).Stocked) : Unused template := by
  cases stocked with
  | series unused _ => exact unused

/-- In a sound series every addition can be taken back. -/
theorem Sound.undoes (sound : (Node.series frame template siblings).Sound)
    (stocked : (Node.series frame template siblings).Stocked) (path : Path) :
    Reversible ((Node.series frame template siblings).layout path) frame template siblings where
  added behind extended index added := by
    have remembered := layout_addSibling added path
    obtain ⟨_, _, _, same, inserted, position, inside, -⟩ := addSibling_eq_ok added
    cases same
    have copied : (siblings.insertIdx index (.mk false template))[index]? = some (.mk false template) := by
      rw [List.getElem?_insertIdx_self, if_pos inside]
    refine ⟨position, inside, inserted, stocked.unused, ?_, ?_, remembered⟩
    · rw [remembered, inserted]
      have there := getElem?_layoutSiblings path (siblings.insertIdx index (.mk false template)) index
      rwa [copied] at there
    · rw [remembered, inserted]
      exact renumbered_layout (fun number moved sibling opened there => getElem?_openGap there opened) path
  undone behind extended index added := by
    have remembered := layout_addSibling added path
    obtain ⟨_, _, _, same, rfl, position, inside, -⟩ := addSibling_eq_ok added
    cases same
    have removed : (Node.series frame template (siblings.insertIdx index (.mk false template))).removeSibling
        ((Node.series frame template siblings).layout path).path index = .ok (.series frame template siblings) := by
      refine removeSibling_series_iff.mpr ?_
      rw [List.eraseIdx_insertIdx_self, List.length_insertIdx_of_le_length inside]
      exact ⟨Nat.lt_succ_of_le inside, sound.enough, rfl⟩
    exact ⟨removed, remembered ▸ layout_removeSibling removed path⟩
  removed index reduced removed := by
    have remembered := layout_removeSibling removed path
    obtain ⟨inside, -, rfl⟩ := removeSibling_series_iff.mp removed
    refine ⟨inside, rfl, ?_, remembered⟩
    rw [remembered]
    exact renumbered_layout (fun number moved sibling closed there => getElem?_closeGap there closed) path

end Series

end Node

namespace Tree

variable {tree : Tree}

/-- Every node that is listed with a path occurs in what the tree remembers, and remembers that path. -/
theorem Remembers.occurs {layout : Layout} (remembers : tree.Remembers layout) {path : Path} {node : Node}
    (listed : (path, node) ∈ tree.nodes) : Node.Occurs layout tree.root (node.layout path) node := by
  obtain ⟨segments, rfl, stands⟩ := Node.mem_nodes_iff.mp listed
  rw [remembers.layout_eq]
  exact stands.occurs tree.here

/-- Every series that occurs in a tree can take back what is added to it. -/
theorem Remembers.undoes {layout own : Layout} {frame : Frame} {template : List (String × Node)}
    {siblings : List Sibling} (remembers : tree.Remembers layout)
    (occurs : Node.Occurs layout tree.root own (.series frame template siblings)) :
    Node.Reversible own frame template siblings := by
  have reachable := remembers.reachable
  have sound := occurs.sound reachable.sound
  have stocked := occurs.stocked reachable.stocked
  rw [remembers.layout_eq] at occurs
  obtain ⟨place, rfl⟩ := occurs.exists_layout
  exact sound.undoes stocked place

/-- A sibling that was added to a series, wherever in a reachable tree the series occurs, can be removed again, which
restores the series with all its paths; and neither adding nor removing a sibling does anything to the other ones but
renumber them. -/
theorem Reachable.reversible (reachable : tree.Reachable) :
    (∃ layout, tree.Remembers layout) ∧ ∀ layout, tree.Remembers layout →
      (∀ path node, (path, node) ∈ tree.nodes → Node.Occurs layout tree.root (node.layout path) node) ∧
        ∀ own frame template siblings, Node.Occurs layout tree.root own (.series frame template siblings) →
          Node.Reversible own frame template siblings :=
  ⟨reachable.remembers, fun _ remembers =>
    ⟨fun _ _ listed => remembers.occurs listed, fun _ _ _ _ occurs => remembers.undoes occurs⟩⟩

/-- Tables with guests, who choose a dish each: a series in the siblings of another one, and in its template. -/
def tables : Blueprint where
  namespaceText := none
  root := .collection { CollectionPlan.plain with extraSiblings := some 2 }
    [("guests", .collection { CollectionPlan.plain with extraSiblings := some 2 }
      [("menu", .form ⟨none, none, .absent⟩ none [("dish", .field .standard)])])]
  distinct := by decide

/-- At the second table a guest comes in between the two that are there, and may leave again. -/
theorem reversible_tables : ∃ (tree : Tree) (frame : Frame) (template : List (String × Node))
    (siblings : List Sibling), Tree.mount tables none = .ok tree ∧
      (⟨["1", "guests"]⟩, .series frame template siblings) ∈ tree.nodes ∧
        (∃ extended, (Node.series frame template siblings).addSibling ⟨["1", "guests"]⟩ (some 0) = .ok (extended, 1)) ∧
          Node.Reversible ((Node.series frame template siblings).layout ⟨["1", "guests"]⟩) frame template siblings := by
  have finds : ((Tree.mount tables none).toOption.bind fun tree => (tree.node? ⟨["1", "guests"]⟩).bind fun node =>
      (node.addSibling ⟨["1", "guests"]⟩ (some 0)).toOption.map Prod.snd) = some 1 := by decide +kernel
  obtain ⟨tree, mounted, finds⟩ := Option.bind_eq_some_iff.mp finds
  obtain ⟨node, found, finds⟩ := Option.bind_eq_some_iff.mp finds
  obtain ⟨⟨extended, index⟩, added, rfl⟩ := Option.map_eq_some_iff.mp finds
  rw [toOption_eq_some] at mounted added
  have reachable := Reachable.mounted mounted
  have listed := (node?_eq_some_iff reachable.regular).mp found
  obtain ⟨frame, template, siblings, rfl, -⟩ := Node.addSibling_eq_ok added
  obtain ⟨occurs, restores⟩ := reachable.reversible.2 tree.layout (.mounted mounted)
  exact ⟨tree, frame, template, siblings, mounted, listed, ⟨extended, added⟩, restores _ _ _ _ (occurs _ _ listed)⟩

end Tree

end Formwork
