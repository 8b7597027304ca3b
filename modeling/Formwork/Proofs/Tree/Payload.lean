import Formwork.Proofs.Node.Leaves
import Formwork.Proofs.Tree.Rest
import Formwork.Proofs.Tree.Sound

/-!
# What a submission of the whole tree contains

The payload of a reachable tree has the shape of the tree and one leaf for each data field that is
neither disabled nor beneath a pristine sibling, in the order of rendering and each at a location of its
own. A visible field sends its value and a hidden one the blank value of its widget
(`Tree.Reachable.itemized`).

The values can also be gathered by a traversal that passes over hidden forms and fieldsets as a whole
(`Tree.gathered`). At rest everything beneath a hidden form or fieldset is hidden itself, so what is
gathered are the visible leaves.
-/

set_option autoImplicit false

namespace Formwork

open Formwork.Text

/-! ## Gathering values -/

namespace Member

mutual
/-- The values of the operable fields at and beneath a member; a hidden fieldset is passed over with
everything in it. -/
def gathered (path : Path) : Member → List (Path × Value)
  | .field entry => if entry.isOperable then [(path, entry.value)] else []
  | .fieldset group members => if group.hidden then [] else gatheredAll path members

/-- `gathered` for the members of a group at a path. -/
def gatheredAll (path : Path) : List (String × Member) → List (Path × Value)
  | [] => []
  | (name, member) :: rest => member.gathered (path.join name) ++ gatheredAll path rest
end

theorem gatheredAll_eq (path : Path) (members : List (String × Member)) :
    gatheredAll path members = members.flatMap fun entry => entry.2.gathered (path.join entry.1) := by
  induction members with
  | nil => rfl
  | cons entry rest ih => rw [gatheredAll, ih, List.flatMap_cons]

theorem operable_eq (path : Path) (members : List (String × Member)) :
    operable path members = members.flatMap fun entry =>
      (entry.2.item.field?.map fun field => (path.join entry.1, field)).toList.filter
          (fun field => field.2.isOperable) ++ operable (path.join entry.1) entry.2.inner := by
  rw [operable, fields_eq, List.filter_flatMap]
  refine List.flatMap_congr ?_
  intro entry _
  rw [List.filter_append]
  rfl

variable {lookup : Lookup} {scope : Path} {hiddenAbove disabledAbove : Bool}
  {members : List (String × Member)}

/-- No field is operable in a fresh group that is hidden. -/
theorem operable_of_hidden (fresh : refreshAll lookup scope true disabledAbove members = members)
    (path : Path) : operable path members = [] := by
  induction members using groupInduction generalizing scope disabledAbove path with
  | step members ih =>
      rw [operable_eq, List.flatMap_eq_nil_iff]
      intro entry inside
      obtain ⟨hidden, -, inner⟩ := flags_of_refresh_eq_self (refreshAll_eq_self_iff.mp fresh entry inside)
      rw [Bool.true_or] at hidden
      rw [hidden] at inner
      rw [ih entry inside inner, List.append_nil]
      obtain ⟨name, member⟩ := entry
      cases member with
      | field entry =>
          have isHidden : entry.hidden = true := hidden
          simp [item, Item.field?, Field.isOperable, isHidden]
      | fieldset group members => rfl

/-- In a fresh group passing over hidden fieldsets leaves out no value of an operable field. -/
theorem gatheredAll_of_fresh
    (fresh : refreshAll lookup scope hiddenAbove disabledAbove members = members) (path : Path) :
    gatheredAll path members = (operable path members).map fun entry => (entry.1, entry.2.value) := by
  induction members using groupInduction generalizing scope hiddenAbove disabledAbove path with
  | step members ih =>
      rw [gatheredAll_eq, operable_eq, List.map_flatMap]
      refine List.flatMap_congr ?_
      intro entry inside
      have inner := (flags_of_refresh_eq_self (refreshAll_eq_self_iff.mp fresh entry inside)).2.2
      have below := ih entry inside inner (path.join entry.1)
      obtain ⟨name, member⟩ := entry
      cases member with
      | field entry =>
          rw [gathered]
          split
          · simp_all [item, Item.field?, Member.inner, operable, fields, itemsAll]
          · simp_all [item, Item.field?, Member.inner, operable, fields, itemsAll]
      | fieldset group members =>
          rw [gathered]
          split
          · rename_i isHidden
            rw [show (Member.fieldset group members).hidden = true from isHidden] at inner
            have none := operable_of_hidden inner (path.join name)
            simp [item, Item.field?, none]
          · exact below

end Member

/-- The values of the operable fields of a form, and none if the form is hidden. -/
def Form.gathered (path : Path) (form : Form) : List (Path × Value) :=
  if form.group.hidden then [] else Member.gatheredAll path form.members

theorem Form.gathered_of_fresh {lookup : Lookup} {path : Path} {form : Form}
    (fresh : form.refresh lookup path = form) : form.gathered path = form.collected path := by
  have members := (Form.refresh_eq_self_iff.mp fresh).2
  unfold gathered collected
  split
  · rename_i isHidden
    rw [isHidden] at members
    rw [Member.operable_of_hidden members, List.map_nil]
  · exact Member.gatheredAll_of_fresh members path

/-- The collected values of a form are those of the visible fields that are sent. -/
theorem Form.collected_eq (path : Path) (form : Form) :
    form.collected path = (((form.fields path).filter fun entry => entry.2.isSent).filter fun entry =>
      !entry.2.hidden).map fun entry => (entry.1, entry.2.value) := by
  rw [collected, Member.operable, List.filter_filter]
  refine congrArg (List.map _) (List.filter_congr fun entry _ => ?_)
  simp only [Field.isOperable, Field.isSent]
  cases entry.2.hidden <;> cases entry.2.disabled <;> cases entry.2.isButton <;> rfl

namespace Tree

variable {tree : Tree}

/-! ## Leaves and fields -/

variable (tree) in
/-- The fields whose values are sent, in the order of rendering. -/
def sent : List (Path × Field) := tree.root.sent tree.here

variable (tree) in
/-- The values of the operable fields outside pristine siblings, without those beneath hidden forms and
fieldsets. -/
def gathered : List (Path × Value) :=
  (tree.root.forms true tree.here).flatMap fun entry => entry.2.gathered entry.1

variable (tree) in
/-- A path leads beneath a pristine sibling. -/
def Offered (path : Path) : Prop :=
  ∃ outer frame template siblings index members rest,
    (outer, Node.series frame template siblings) ∈ tree.nodes ∧
      siblings[index]? = some (.mk true members) ∧ path = (outer.join (indexText index)).extend rest

theorem offered_iff {segments : List String} :
    tree.Offered (tree.here.extend ⟨segments⟩) ↔ tree.root.Offered segments := by
  constructor
  · rintro ⟨outer, frame, template, siblings, index, members, ⟨rest⟩, listed, offered, same⟩
    obtain ⟨front, rfl, stands⟩ := Node.mem_nodes_iff.mp listed
    rw [Path.join_eq_extend, Path.extend_append, Path.extend_append] at same
    injection Path.extend_injective same with same
    refine ⟨front, frame, template, siblings, index, members, rest, ?_, stands, offered⟩
    exact same
  · rintro ⟨front, frame, template, siblings, index, members, rest, rfl, stands, offered⟩
    refine ⟨_, frame, template, siblings, index, members, ⟨rest⟩, Node.mem_nodes_iff.mpr ⟨front, rfl, stands⟩,
      offered, ?_⟩
    rw [Path.join_eq_extend, Path.extend_append, Path.extend_append]
    rfl

variable (tree) in
/-- A leaf of the payload is that of a field with its path. -/
structure LeafOf (leaf : Json.Location × Json) (entry : Path × Field) : Prop where
  /-- The leaf stands in the payload at its location. -/
  stands : tree.payload.at? leaf.1 = some leaf.2
  /-- The location leads to the field: by the names of members, the ranks of siblings among those that
  are not pristine, and last the dotted path of the field in its form. -/
  located : ∃ segments, entry.1 = tree.here.extend ⟨segments⟩ ∧ tree.root.Sends leaf.1 segments entry.2
  visible : entry.2.hidden = false → leaf.2 = entry.2.value.toWire
  hidden : entry.2.hidden = true → leaf.2 = entry.2.plan.widget.blank.toWire

variable (tree) in
/-- The payload has one leaf for each field that is to be sent. -/
structure Itemized : Prop where
  /-- The payload has the shape of the tree, and its leaves are those of the fields that are sent, one by
  one and in order, at different locations. -/
  leaves : ∃ leaves, tree.root.leaves? tree.payload = some leaves ∧
    List.Forall₂ tree.LeafOf leaves tree.sent ∧ (leaves.map Prod.fst).Nodup
  /-- Lists of siblings stand exactly where a collection is repeatable. -/
  single : ∀ path frame progress members, (path, Node.collection frame progress members) ∈ tree.nodes →
    frame.plan.isRepeatable = false
  repeated : ∀ path frame template siblings, (path, Node.series frame template siblings) ∈ tree.nodes →
    frame.plan.isRepeatable = true
  inOrder : tree.sent.Sublist tree.fields
  once : (tree.sent.map Prod.fst).Nodup
  /-- The fields that are sent are the data fields that are neither disabled nor beneath a pristine
  sibling. -/
  mem_sent_iff : ∀ path field, (path, field) ∈ tree.sent ↔ (path, field) ∈ tree.fields ∧
    field.isButton = false ∧ field.disabled = false ∧ ¬ tree.Offered path
  /-- The collected values are those of the visible leaves, whether hidden forms and fieldsets are passed
  over as a whole or not. -/
  gathered : tree.gathered = (tree.sent.filter fun entry => !entry.2.hidden).map fun entry =>
    (entry.1, entry.2.value)
  collected : tree.collected = tree.gathered

theorem Node.Sound.fits {node : Node} (sound : node.Sound) {path place : Path} {field : Field}
    (listed : (place, field) ∈ node.fields path) : field.holding.Fits := by
  obtain ⟨front, content, names, rfl, form, member⟩ := Node.mem_fields_iff.mp listed
  cases sound.stands form with
  | form fits => exact fits names field member

theorem AtRest.gathered_eq_collected (rest : tree.AtRest) : tree.gathered = tree.collected := by
  obtain ⟨-, refreshed, -, -⟩ := atRest_iff.mp rest
  refine List.flatMap_congr ?_
  intro entry live
  have listed : entry ∈ tree.forms := ((Node.liveNodes_sublist tree.here tree.root).filterMap _).subset live
  exact Form.gathered_of_fresh (refreshed entry listed)

theorem collected_eq_sent : tree.collected = (tree.sent.filter fun entry => !entry.2.hidden).map fun entry =>
    (entry.1, entry.2.value) := by
  rw [collected, Node.collected, sent, Node.sent, List.filter_flatMap, List.map_flatMap]
  refine List.flatMap_congr ?_
  intro entry _
  exact entry.2.collected_eq entry.1

/-- The fields that are sent are the data fields that are neither disabled nor beneath a pristine sibling. -/
theorem mem_sent_iff (regular : tree.root.Regular) {path : Path} {field : Field} :
    (path, field) ∈ tree.sent ↔ (path, field) ∈ tree.fields ∧
      field.isButton = false ∧ field.disabled = false ∧ ¬ tree.Offered path := by
  rw [sent, Node.mem_sent_iff, fields, Node.mem_fields_iff]
  simp only [Node.exists_location_iff regular, Field.isSent, Bool.and_eq_true, Bool.not_eq_true']
  constructor
  · rintro ⟨segments, rfl, ⟨isData, enabled⟩, shown, front, content, names, rfl, form, member⟩
    exact ⟨⟨front, content, names, rfl, form, member⟩, isData, enabled, offered_iff.not.mpr shown⟩
  · rintro ⟨⟨front, content, names, rfl, form, member⟩, isData, enabled, shown⟩
    exact ⟨_, rfl, ⟨isData, enabled⟩, offered_iff.not.mp shown, front, content, names, rfl, form, member⟩

/-- The payload of a reachable tree has a leaf for every data field that is neither disabled nor beneath a
pristine sibling, and no other leaf. -/
theorem Reachable.itemized (reachable : tree.Reachable) : tree.Itemized := by
  have regular := reachable.regular
  have inOrder : tree.sent.Sublist tree.fields := Node.sent_sublist tree.here tree.root
  have once : (tree.sent.map Prod.fst).Nodup := (Node.nodup_fields regular tree.here).sublist (inOrder.map _)
  have gathered := reachable.atRest.gathered_eq_collected
  refine {
    leaves := ?_
    single := fun path frame progress members listed => ?_
    repeated := fun path frame template siblings listed => ?_
    inOrder := inOrder
    once := once
    mem_sent_iff := fun path field => Tree.mem_sent_iff regular
    gathered := gathered.trans collected_eq_sent
    collected := gathered.symm }
  · obtain ⟨leaves, read, hold⟩ := Node.exists_leaves_wire tree.here tree.root
    refine ⟨leaves, read, ?_, Node.nodup_locations regular hold once⟩
    have fits : ∀ entry ∈ tree.sent, entry.2.holding.Fits := fun entry sent =>
      Node.Sound.fits reachable.sound (inOrder.subset sent)
    refine List.Forall₂.flip (((List.forall₂_and_left _ _).mpr ⟨fits, hold.flip⟩).imp ?_)
    rintro entry leaf ⟨fits, value, segments, place, sends⟩
    refine ⟨?_, ⟨segments, place, sends⟩, fun visible => ?_, fun hidden => ?_⟩
    · rw [value]
      exact sends.at?_wire regular
    · rw [value, Field.wireValue, visible, if_neg Bool.false_ne_true]
    · rw [value, Field.wireValue, hidden, if_pos rfl]
      exact congrArg Value.toWire fits.blank
  · obtain ⟨segments, -, stands⟩ := Node.mem_nodes_iff.mp listed
    cases reachable.sound.stands stands with
    | collection single _ => exact single
  · obtain ⟨segments, -, stands⟩ := Node.mem_nodes_iff.mp listed
    cases reachable.sound.stands stands with
    | series repeats _ _ _ _ => exact repeats

/-- The payload of the orders itemizes their fields after the second one was filled in. -/
theorem itemized_orders : ∃ tree, Tree.mount orders none = .ok tree ∧
    (tree.after (.setValue ⟨["shop", "1", "order", "size"]⟩ (.text "large"))).Itemized := by
  obtain ⟨tree, mounted⟩ : ∃ tree, Tree.mount orders none = .ok tree := ⟨_, rfl⟩
  exact ⟨tree, mounted, Reachable.itemized (.after (.mounted mounted) _)⟩

end Tree

end Formwork
