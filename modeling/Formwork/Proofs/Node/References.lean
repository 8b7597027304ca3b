import Formwork.Proofs.Node.Built
import Formwork.Proofs.Node.Conditions

/-!
# The references of a node

`Node.references` lists the references of all conditions and calls in a node, each with the form or fieldset from
which it is read. Building fixes them, so nothing that happens to a node changes them (`Form.references_asBuilt`).

If all of them are steady, then the flags that are derived under a namespace are those that are derived without it,
and so are the inducers that are remembered and that turn true (`Node.refresh_spaced`, `Node.latch_spaced`,
`Node.rising_spaced`).
-/

set_option autoImplicit false

namespace Formwork

/-! ## What refers -/

/-- The references of the condition of a visibility. -/
def Visibility.references : Visibility → List Reference
  | .always => []
  | .showWhile condition => condition.references
  | .hideWhile condition => condition.references

/-- The references of a condition that may be absent. -/
def optionalReferences (condition : Option Expression) : List Reference :=
  condition.toList.flatMap Expression.references

/-- The references of the conditions of a field. -/
def Field.conditionReferences (entry : Field) : List Reference :=
  entry.visibility.references ++ (optionalReferences entry.disableWhile ++ optionalReferences entry.requireWhile)

/-- The references of a field, those of the calls of a button included. -/
def Field.references (entry : Field) : List Reference :=
  entry.conditionReferences ++ entry.button.toList.flatMap fun button => button.pipeline.references

/-- The references of the conditions of a group. -/
def Group.references (group : Group) : List Reference :=
  group.visibility.references ++ optionalReferences group.disableWhile

/-- The references at one position beneath a form, with the place from which they are read: that of the group around
a field, and that of a fieldset itself. -/
def Item.references (place : Path) : Item → List (Path × Reference)
  | .field entry => entry.references.map (place.enclosing, ·)
  | .fieldset group => group.references.map (place, ·)

/-- The references beneath the members of a group at a path. -/
def Member.references (path : Path) (members : List (String × Member)) : List (Path × Reference) :=
  (itemsAll path members).flatMap fun entry => entry.2.references entry.1

/-- The references of a form at a path. -/
def Form.references (path : Path) (form : Form) : List (Path × Reference) :=
  form.group.references.map (path, ·) ++
    (form.inducers.flatMap (fun inducer => inducer.condition.references.map (path, ·)) ++
      Member.references path form.members)

/-- The references of the frame of a collection at a path. -/
def Frame.references (path : Path) (frame : Frame) : List (Path × Reference) :=
  frame.inducer.toList.flatMap fun inducer => inducer.condition.references.map (path, ·)

/-- The references of a node at a path and of everything beneath it. -/
def Node.references (path : Path) (node : Node) : List (Path × Reference) :=
  node.listing Form.references Frame.references path

/-! ## Building fixes references -/

theorem Field.references_asBuilt (entry : Field) : entry.asBuilt.references = entry.references := by
  simp only [references, asBuilt]
  cases entry.button <;> rfl

theorem Member.references_asBuilt (path : Path) (members : List (String × Member)) :
    references path (mapAll Field.asBuilt Group.asBuilt members) = references path members := by
  rw [references, itemsAll_mapAll, List.flatMap_map]
  refine List.flatMap_congr fun entry _ => ?_
  obtain ⟨place, item⟩ := entry
  cases item with
  | field entry => exact congrArg (List.map _) entry.references_asBuilt
  | fieldset group => rfl

theorem Form.references_asBuilt (path : Path) (form : Form) : form.asBuilt.references path = form.references path := by
  have members : Member.references path form.asBuilt.members = Member.references path form.members :=
    Member.references_asBuilt path form.members
  have inducers : form.asBuilt.inducers = form.inducers.map Inducer.asBuilt := rfl
  rw [references, members, inducers, List.flatMap_map]
  rfl

theorem Frame.references_asBuilt (path : Path) (frame : Frame) :
    frame.asBuilt.references path = frame.references path := by
  cases inducer : frame.inducer <;> simp [references, asBuilt, inducer, Inducer.asBuilt]

/-! ## What conditions refer to -/

theorem Visibility.flatMap_conditions (visibility : Visibility) :
    visibility.conditions.flatMap Expression.references = visibility.references := by
  cases visibility with
  | always => rfl
  | showWhile condition => exact List.flatMap_singleton ..
  | hideWhile condition => exact List.flatMap_singleton ..

theorem Field.flatMap_conditions (entry : Field) :
    entry.conditions.flatMap Expression.references = entry.conditionReferences := by
  rw [conditions, List.flatMap_append, List.flatMap_append, Visibility.flatMap_conditions]
  rfl

theorem Group.flatMap_conditions (group : Group) :
    group.conditions.flatMap Expression.references = group.references := by
  rw [conditions, List.flatMap_append, Visibility.flatMap_conditions]
  rfl

section Conditions

variable {path : Path} {entry : Path × Expression} {reference : Reference} (refers : reference ∈ entry.2.references)
include refers

theorem Item.mem_references {item : Item} (declared : entry ∈ item.conditions path) :
    (entry.1, reference) ∈ item.references path := by
  cases item with
  | field own =>
      obtain ⟨condition, inside, rfl⟩ := List.mem_map.mp declared
      refine List.mem_map.mpr ⟨reference, List.mem_append_left _ ?_, rfl⟩
      rw [← own.flatMap_conditions]
      exact List.mem_flatMap.mpr ⟨condition, inside, refers⟩
  | fieldset group =>
      obtain ⟨condition, inside, rfl⟩ := List.mem_map.mp declared
      refine List.mem_map.mpr ⟨reference, ?_, rfl⟩
      rw [← group.flatMap_conditions]
      exact List.mem_flatMap.mpr ⟨condition, inside, refers⟩

theorem Form.mem_references {form : Form} (declared : entry ∈ form.conditions path) :
    (entry.1, reference) ∈ form.references path := by
  rcases List.mem_append.mp declared with own | rest
  · have inGroup : (entry.1, reference) ∈ Item.references path (.fieldset form.group) :=
      Item.mem_references refers own
    exact List.mem_append_left _ inGroup
  · refine List.mem_append_right _ ?_
    rcases List.mem_append.mp rest with ofInducer | inner
    · obtain ⟨inducer, inside, rfl⟩ := List.mem_map.mp ofInducer
      exact List.mem_append_left _ (List.mem_flatMap.mpr ⟨inducer, inside, List.mem_map.mpr ⟨reference, refers, rfl⟩⟩)
    · obtain ⟨item, inside, here⟩ := List.mem_flatMap.mp inner
      exact List.mem_append_right _ (List.mem_flatMap.mpr ⟨item, inside, Item.mem_references refers here⟩)

theorem Frame.mem_references {frame : Frame} (declared : entry ∈ frame.conditions path) :
    (entry.1, reference) ∈ frame.references path := by
  obtain ⟨inducer, inside, rfl⟩ := List.mem_map.mp declared
  exact List.mem_flatMap.mpr ⟨inducer, inside, List.mem_map.mpr ⟨reference, refers, rfl⟩⟩

/-- What a condition of a node refers to is among the references of the node. -/
theorem Node.mem_references {node : Node} (declared : entry ∈ node.conditions path) :
    (entry.1, reference) ∈ node.references path := by
  obtain ⟨⟨place, inner⟩, listed, here⟩ := List.mem_flatMap.mp declared
  refine List.mem_flatMap.mpr ⟨_, listed, ?_⟩
  cases inner with
  | form content => exact Form.mem_references refers here
  | collection frame progress members => exact Frame.mem_references refers here
  | series frame template siblings => exact Frame.mem_references refers here

end Conditions

/-! ## Under a namespace -/

/-- Whether references that are read from places are steady. -/
def SteadyFrom (above : Path) (places : List Path) (references : List (Path × Reference)) : Prop :=
  ∀ entry ∈ references, entry.2.Steady entry.1 above places

instance (above : Path) (places : List Path) (references : List (Path × Reference)) :
    Decidable (SteadyFrom above places references) :=
  inferInstanceAs (Decidable (∀ entry ∈ references, entry.2.Steady entry.1 above places))

variable {above path scope : Path} {places : List Path}

theorem steadyFrom_append {first second : List (Path × Reference)} :
    SteadyFrom above places (first ++ second) ↔ SteadyFrom above places first ∧ SteadyFrom above places second :=
  List.forall_mem_append

theorem steadyFrom_map {references : List Reference} :
    SteadyFrom above places (references.map (scope, ·)) ↔ Steadies above scope places references :=
  List.forall_mem_map

theorem steadyFrom_flatMap {α : Type} {list : α → List (Path × Reference)} {items : List α} :
    SteadyFrom above places (items.flatMap list) ↔ ∀ item ∈ items, SteadyFrom above places (list item) :=
  List.forall_mem_flatMap

namespace Node

/-- All references of a node at and beneath another one are steady. -/
theorem steadyFrom_of_mem {node : Node} (steady : SteadyFrom above places (node.references path))
    {entry : Path × Node} (listed : entry ∈ node.nodes false path) :
    SteadyFrom above places (entry.2.listedHere Form.references Frame.references entry.1) :=
  steadyFrom_flatMap.mp steady entry listed

variable {plain spaced : Lookup} (shift : Spaced above places plain spaced)
variable {node : Node} (steady : SteadyFrom above places (node.references path))
include shift steady

/-- Conditions whose references are steady are as true under a namespace. -/
theorem sameTruths_of_steady : SameTruths above plain spaced (node.conditions path) := fun entry declared =>
  Expression.evaluate_spaced shift fun reference refers => steady (entry.1, reference) (mem_references refers declared)

/-- The same flags are derived under a namespace. -/
theorem refresh_spaced : node.refresh spaced (above.extend path) = node.refresh plain path :=
  refresh_congr (sameTruths_of_steady shift steady)

/-- The same is remembered of all inducers under a namespace. -/
theorem latch_spaced : node.latch spaced (above.extend path) = node.latch plain path :=
  latch_congr (sameTruths_of_steady shift steady)

/-- The same inducers turn true under a namespace. -/
theorem rising_spaced :
    node.rising spaced (above.extend path) = (node.rising plain path).map (InducedEvent.under above) :=
  rising_congr (sameTruths_of_steady shift steady)

end Node

end Formwork
