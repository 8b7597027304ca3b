import Formwork.Proofs.Markup
import Formwork.Proofs.Tree.Building

/-!
# The markup of a tree

A tree that was mounted has read all its conditions, and it shows the same conditions ever after. So all of its markup
passes the check, at whatever moment it is rendered (`Tree.Reachable.wellMarked`): the conditions of fields, fieldsets
and forms, and those of the frames of collections. What is rendered is not empty, and no path is rendered twice, for
only a form lists anything beneath its own path, and no node stands beneath a form.
-/

set_option autoImplicit false

namespace Formwork

/-! ## Building reads what is marked up -/

section Reads

variable {path : Path} {source : Option String}

theorem reads_of_compileInducer {induction : Induction} {inducer : Option Inducer}
    (compiled : Inducer.compileOptional path induction source = .ok inducer) : Reads source := by
  cases source with
  | none => exact reads_none
  | some text =>
      rw [Inducer.compileOptional, map_eq_ok] at compiled
      obtain ⟨_, compiled, -⟩ := compiled
      rw [Inducer.compile, map_eq_ok] at compiled
      obtain ⟨condition, compiled, -⟩ := compiled
      exact exists_compileCondition.mp ⟨condition, compiled⟩

theorem reads_of_compileActivation {placement : Placement} {inducer : Option Inducer}
    (compiled : compileActivation path placement source = .ok inducer) : Reads source := by
  refine @reads_of_compileInducer path _ .activates inducer ?_
  cases source with
  | none => exact compiled
  | some text =>
      rw [compileActivation] at compiled
      split at compiled
      · exact compiled
      · cases compiled

end Reads

namespace Markup

/-- The conditions of a field that is built are sound. -/
theorem sound_ofField {path : Path} {plan : FieldPlan} {field : Field} (built : Field.build path plan = .ok field) :
    (ofField field.plan).Sound := by
  simp only [Field.build, bind_eq_ok, pure_eq_ok] at built
  obtain ⟨visibility, shown, disableWhile, disabled, requireWhile, required, _, -, _, -, rfl⟩ := built
  obtain ⟨⟨shown, hidden⟩, one⟩ := exists_compileVisibility.mp ⟨visibility, shown⟩
  exact ⟨forall_role.mpr ⟨shown, hidden, exists_compileOptional.mp ⟨disableWhile, disabled⟩,
    exists_compileOptional.mp ⟨requireWhile, required⟩, reads_none, reads_none, reads_none⟩, one⟩

/-- The conditions of a group that is built are sound, if those of its inducers can be read. -/
theorem sound_ofConditions {path : Path} {plan : GroupPlan} {group : Group} (built : Group.build path plan = .ok group)
    (opens : Reads plan.conditions.openWhen) (closes : Reads plan.conditions.closeWhen)
    (activates : Reads plan.conditions.activateWhen) : (ofConditions group.plan.conditions).Sound := by
  simp only [Group.build, bind_eq_ok, pure_eq_ok] at built
  obtain ⟨visibility, shown, disableWhile, disabled, rfl⟩ := built
  obtain ⟨⟨shown, hidden⟩, one⟩ := exists_compileVisibility.mp ⟨visibility, shown⟩
  exact ⟨forall_role.mpr ⟨shown, hidden, exists_compileOptional.mp ⟨disableWhile, disabled⟩, reads_none, opens, closes,
    activates⟩, one⟩

/-- What is built within a form is sound; a fieldset has no inducers. -/
theorem items_byBuilding : Item.ByBuilding fun item => (ofItem item).Sound where
  field _ _ _ built := sound_ofField built
  fieldset path plan group checked built := by
    have reads {source : Option String} (absent : ¬source.isSome = true) : Reads source := by
      rw [Option.not_isSome_iff_eq_none] at absent
      exact absent ▸ reads_none
    unfold Member.checkFieldset at checked
    split at checked
    · cases checked
    · rename_i noOpening
      split at checked
      · cases checked
      · rename_i noClosing
        split at checked
        · cases checked
        · rename_i noActivating
          exact sound_ofConditions built (reads noOpening) (reads noClosing) (reads noActivating)

/-! ## Nodes -/

/-- All markup of a node is sound. -/
def SoundOn (node : Node) : Prop := ∀ path, ∀ entry ∈ ofNode path node, entry.2.Sound

/-- Nothing that is done to a form changes its markup. -/
theorem ofNode_asBuilt (path : Path) (content : Form) :
    ofNode path (.form content.asBuilt) = ofNode path (.form content) := by
  have members : content.asBuilt.members = Member.mapAll Field.asBuilt Group.asBuilt content.members := rfl
  have plan : content.asBuilt.group.plan = content.group.plan := rfl
  rw [ofNode, ofNode, members, plan, Member.itemsAll_mapAll, List.map_map]
  refine congrArg (_ :: ·) (List.map_congr_left fun entry _ => ?_)
  obtain ⟨place, item⟩ := entry
  cases item <;> rfl

/-- The markup of everything that is built is sound. -/
theorem nodes_byBuilding : Node.ByBuilding (fun content => SoundOn (.form content))
    fun frame => (ofCollection frame.plan).Sound where
  form path placement plan dialog members content built := by
    intro place
    rw [ofNode_asBuilt]
    simp only [Form.build, bind_eq_ok, pure_eq_ok] at built
    obtain ⟨_, opening, _, closing, _, activating, group, groupBuilt, entries, membersBuilt, rfl⟩ := built
    refine List.forall_mem_cons.mpr ⟨?_, List.forall_mem_map.mpr (Member.buildAll_items items_byBuilding membersBuilt)⟩
    exact sound_ofConditions groupBuilt (reads_of_compileInducer opening) (reads_of_compileInducer closing)
      (reads_of_compileActivation activating)
  frame path placement plan frame built := by
    obtain ⟨rfl, -, compiled⟩ := Node.buildFrame_eq_ok built
    exact ⟨forall_role.mpr ⟨reads_none, reads_none, reads_none, reads_none, reads_none, reads_none,
      reads_of_compileActivation compiled⟩, .inl rfl⟩

theorem soundOn_of_built {node : Node} (built : node.Built (fun content => SoundOn (.form content))
    fun frame => (ofCollection frame.plan).Sound) : SoundOn node := by
  intro path
  cases built with
  | form own =>
      rw [← ofNode_asBuilt]
      exact own path
  | collection own _ => exact List.forall_mem_singleton.mpr own
  | series own _ _ => exact List.forall_mem_singleton.mpr own

/-- A node is marked up at its own path, and a form beneath it as well. -/
theorem exists_of_mem_ofNode {path : Path} {content : Form} {entry : Path × Markup}
    (listed : entry ∈ ofNode path (.form content)) : ∃ rest, entry.1 = path.extend ⟨rest⟩ := by
  rcases List.mem_cons.mp listed with rfl | listed
  · exact ⟨[], (Path.extend_root path).symm⟩
  · obtain ⟨⟨place, item⟩, inside, rfl⟩ := List.mem_map.mp listed
    obtain ⟨first, rest, same⟩ := Member.exists_of_mem_itemsAll inside
    exact ⟨first :: rest, same⟩

/-- A node lists no path twice. -/
theorem nodup_ofNode (path : Path) {node : Node} (regular : node.Regular) :
    ((ofNode path node).map Prod.fst).Nodup := by
  cases node with
  | form content =>
      have places : (ofNode path (.form content)).map Prod.fst =
          path :: (Member.itemsAll path content.members).map Prod.fst := by
        rw [ofNode, List.map_cons, List.map_map]
        rfl
      rw [places, List.nodup_cons]
      refine ⟨fun listed => ?_, Member.nodup_items regular.form path⟩
      obtain ⟨⟨place, item⟩, inside, same⟩ := List.mem_map.mp listed
      obtain ⟨first, rest, beneath⟩ := Member.exists_of_mem_itemsAll inside
      exact Path.extend_cons_ne (same.symm.trans beneath)
  | collection frame progress members => exact List.nodup_singleton _
  | series frame template siblings => exact List.nodup_singleton _

end Markup

/-! ## Trees -/

namespace Tree

variable {tree : Tree}

/-- The markup of a tree is never empty, stands at no path twice, and passes the check where it stands. -/
structure WellMarked (tree : Tree) : Prop where
  some : ∀ entry ∈ tree.markup, entry.2.isEmpty = false
  once : (tree.markup.map Prod.fst).Nodup
  checked : ∀ entry ∈ tree.markup, entry.2.check entry.1 = .ok ()

theorem nodup_markup (regular : tree.root.Regular) : (tree.markup.map Prod.fst).Nodup := by
  have once := @Node.nodup_ofNodes _ regular _ Markup.ofNode
    (fun _ _ _ listed => Markup.exists_of_mem_ofNode listed) (fun path node notForm entry listed => ?_)
    (fun path _ regular => Markup.nodup_ofNode path regular) tree.here
  · exact once.sublist (List.filter_sublist.map _)
  · cases node with
    | form content => cases notForm
    | collection frame progress members => exact congrArg Prod.fst (List.mem_singleton.mp listed)
    | series frame template siblings => exact congrArg Prod.fst (List.mem_singleton.mp listed)

/-- At every moment the markup of a reachable tree is well formed. -/
theorem Reachable.wellMarked (reachable : tree.Reachable) : tree.WellMarked := by
  refine ⟨fun entry listed => ?_, nodup_markup reachable.regular, fun entry listed => ?_⟩
  · simpa using (List.mem_filter.mp listed).2
  · obtain ⟨⟨place, node⟩, stands, inNode⟩ := List.mem_flatMap.mp (List.mem_of_mem_filter listed)
    obtain ⟨segments, -, stands⟩ := Node.mem_nodes_iff.mp stands
    have built := (reachable.built Markup.nodes_byBuilding).stands stands
    exact Markup.check_eq_ok_iff.mpr (Markup.soundOn_of_built built place entry inNode)

end Tree

/-! ## There and back -/

/-- Markup is read back from the text of an element, and from its attributes in any order, with any others in
between. -/
structure Markup.ReadsBack (markup : Markup) : Prop where
  rendered : readAttributes? markup.render = some markup.toAttributes
  carried : ∀ entries, ofAttributes entries = .ok markup ↔ (reserved entries).Perm markup.toAttributes

/-- All markup is read back, and that of every reachable tree is well formed. -/
theorem Markup.faithful : (∀ markup : Markup, markup.ReadsBack) ∧ ∀ tree : Tree, tree.Reachable → tree.WellMarked :=
  ⟨fun markup => ⟨markup.readAttributes?_render, fun _ => ofAttributes_eq_ok_iff⟩, fun _ => Tree.Reachable.wellMarked⟩

/-- A note with a condition that needs escaping, in front of a fieldset with a condition. -/
def Tree.quotedConditions : Blueprint where
  namespaceText := none
  root := .collection .plain
    [("order", .form ⟨none, none, .absent⟩ none
      [("kind", .field .standard),
        ("note", .field { FieldPlan.standard with
          showWhile := some "kind == \"a\" && !more.done", requireWhile := some "kind" }),
        ("more", .fieldset ⟨none, none, { Conditions.absent with hideWhile := some "note" }⟩
          [("done", .field .standard)])])]
  distinct := by decide

/-- The markup of the order, as it is rendered. -/
theorem Markup.faithful_quoted : ∃ tree, Tree.mount Tree.quotedConditions none = .ok tree ∧ tree.WellMarked ∧
    (∀ entry ∈ tree.markup, entry.2.ReadsBack) ∧ (tree.markup.map fun entry => (entry.1.text, entry.2.render)) =
      [("order.note", "df-show=\"kind == &quot;a&quot; &amp;&amp; !more.done\" df-require=\"kind\""),
        ("order.more", "df-hide=\"note\"")] := by
  have runs : ((Tree.mount Tree.quotedConditions none).toOption.map fun tree =>
      tree.markup.map fun entry => (entry.1.text, entry.2.render)) =
      some [("order.note", "df-show=\"kind == &quot;a&quot; &amp;&amp; !more.done\" df-require=\"kind\""),
        ("order.more", "df-hide=\"note\"")] := by decide +kernel
  obtain ⟨tree, mounted, rendered⟩ := Option.map_eq_some_iff.mp runs
  rw [toOption_eq_some] at mounted
  exact ⟨tree, mounted, faithful.2 tree (.mounted mounted), fun entry _ => faithful.1 entry.2, rendered⟩

end Formwork
