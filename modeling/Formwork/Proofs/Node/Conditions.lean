import Formwork.Proofs.References
import Formwork.Proofs.Node.Listing
import Formwork.Proofs.Node.Shifting

/-!
# The conditions of a node

`Node.conditions` lists all conditions that are declared in a node, each with the form or fieldset from which it is
read. Flags and latches depend on nothing else: if each condition is as true behind a path as without it, then the
same flags are derived there, the same is remembered of the inducers, and the same inducers turn true
(`Node.refresh_congr`, `Node.latch_congr`, `Node.rising_congr`).
-/

set_option autoImplicit false

namespace Formwork

/-! ## What is declared -/

/-- The condition of a visibility. -/
def Visibility.conditions : Visibility → List Expression
  | .always => []
  | .showWhile condition => [condition]
  | .hideWhile condition => [condition]

/-- The conditions of a field. -/
def Field.conditions (entry : Field) : List Expression :=
  entry.visibility.conditions ++ (entry.disableWhile.toList ++ entry.requireWhile.toList)

/-- The conditions of a group. -/
def Group.conditions (group : Group) : List Expression :=
  group.visibility.conditions ++ group.disableWhile.toList

/-- The conditions at one position beneath a form, with the place from which they are read: that of the group around
a field, and that of a fieldset itself. -/
def Item.conditions (place : Path) : Item → List (Path × Expression)
  | .field entry => entry.conditions.map (place.enclosing, ·)
  | .fieldset group => group.conditions.map (place, ·)

/-- The conditions beneath the members of a group at a path. -/
def Member.conditions (path : Path) (members : List (String × Member)) : List (Path × Expression) :=
  (itemsAll path members).flatMap fun entry => entry.2.conditions entry.1

/-- The conditions of a form at a path, those of its inducers included. -/
def Form.conditions (path : Path) (form : Form) : List (Path × Expression) :=
  form.group.conditions.map (path, ·) ++
    (form.inducers.map (fun inducer => (path, inducer.condition)) ++ Member.conditions path form.members)

/-- The condition of the inducer of the frame of a collection at a path. -/
def Frame.conditions (path : Path) (frame : Frame) : List (Path × Expression) :=
  frame.inducer.toList.map fun inducer => (path, inducer.condition)

/-- The conditions of a node at a path and of everything beneath it. -/
def Node.conditions (path : Path) (node : Node) : List (Path × Expression) :=
  node.listing Form.conditions Frame.conditions path

/-! ## Conditions that are as true elsewhere -/

/-- Whether conditions that are read from places are as true behind a path, where other readings count, as they are
without it. -/
def SameTruths (above : Path) (plain spaced : Lookup) (conditions : List (Path × Expression)) : Prop :=
  ∀ entry ∈ conditions, entry.2.evaluate (above.extend entry.1) spaced = entry.2.evaluate entry.1 plain

variable {above path scope : Path} {plain spaced : Lookup}

theorem sameTruths_append {first second : List (Path × Expression)} :
    SameTruths above plain spaced (first ++ second) ↔
      SameTruths above plain spaced first ∧ SameTruths above plain spaced second :=
  List.forall_mem_append

theorem sameTruths_map {conditions : List Expression} :
    SameTruths above plain spaced (conditions.map (scope, ·)) ↔
      ∀ condition ∈ conditions, condition.evaluate (above.extend scope) spaced = condition.evaluate scope plain :=
  List.forall_mem_map

theorem sameTruths_flatMap {α : Type} {list : α → List (Path × Expression)} {items : List α} :
    SameTruths above plain spaced (items.flatMap list) ↔ ∀ item ∈ items, SameTruths above plain spaced (list item) :=
  List.forall_mem_flatMap

/-- Conditions whose references stay are as true behind a path, whatever stands outside. -/
theorem sameTruths_of_stays {conditions : List (Path × Expression)}
    (stays : ∀ entry ∈ conditions, ∀ reference ∈ entry.2.references, reference.Stays entry.1)
    (same : ∀ place, spaced (above.extend place) = plain place) : SameTruths above plain spaced conditions :=
  fun entry inside => Expression.evaluate_congr fun reference refers =>
    (stays entry inside reference refers).resolve same

theorem Visibility.hides_congr {visibility : Visibility}
    (same : ∀ condition ∈ visibility.conditions,
      condition.evaluate (above.extend scope) spaced = condition.evaluate scope plain) :
    visibility.hides (above.extend scope) spaced = visibility.hides scope plain := by
  cases visibility with
  | always => rfl
  | showWhile condition => exact congrArg not (same condition List.mem_cons_self)
  | hideWhile condition => exact same condition List.mem_cons_self

theorem holdsOptional_congr {condition : Option Expression}
    (same : ∀ own ∈ condition.toList, own.evaluate (above.extend scope) spaced = own.evaluate scope plain) :
    holdsOptional (above.extend scope) spaced condition = holdsOptional scope plain condition := by
  cases condition with
  | none => rfl
  | some own => exact same own List.mem_cons_self

theorem Field.refresh_congr {entry : Field}
    (same : ∀ condition ∈ entry.conditions,
      condition.evaluate (above.extend scope) spaced = condition.evaluate scope plain)
    (hiddenAbove disabledAbove : Bool) :
    entry.refresh spaced (above.extend scope) hiddenAbove disabledAbove =
      entry.refresh plain scope hiddenAbove disabledAbove := by
  obtain ⟨shows, rest⟩ := List.forall_mem_append.mp same
  obtain ⟨disables, requires⟩ := List.forall_mem_append.mp rest
  have disabled : entry.disables spaced (above.extend scope) = entry.disables plain scope := by
    rw [Field.disables, Field.disables, holdsOptional_congr disables]
  have required : entry.requires spaced (above.extend scope) = entry.requires plain scope := by
    unfold Field.requires
    cases declared : entry.requireWhile with
    | none => rfl
    | some condition => exact congrArg (!entry.isButton && ·) (requires condition (by simp [declared]))
  rw [refresh_eq, refresh_eq, Visibility.hides_congr shows, disabled, required]

theorem Group.refresh_congr {group : Group}
    (same : ∀ condition ∈ group.conditions,
      condition.evaluate (above.extend path) spaced = condition.evaluate path plain)
    (hiddenAbove disabledAbove : Bool) :
    group.refresh spaced (above.extend path) hiddenAbove disabledAbove =
      group.refresh plain path hiddenAbove disabledAbove := by
  obtain ⟨shows, disables⟩ := List.forall_mem_append.mp same
  rw [refresh, refresh, Visibility.hides_congr shows, holdsOptional_congr disables]

theorem Member.refreshAll_congr {members : List (String × Member)}
    (same : SameTruths above plain spaced (Member.conditions scope members)) (hiddenAbove disabledAbove : Bool) :
    Member.refreshAll spaced (above.extend scope) hiddenAbove disabledAbove members =
      Member.refreshAll plain scope hiddenAbove disabledAbove members := by
  induction members using groupInduction generalizing scope hiddenAbove disabledAbove with
  | step members ih =>
      rw [refreshAll_eq, refreshAll_eq]
      refine List.map_congr_left fun entry inside => Prod.ext rfl ?_
      have beneath := @ih entry inside (scope.join entry.1)
      rw [conditions, itemsAll_eq, List.flatMap_assoc, sameTruths_flatMap] at same
      have here := same entry inside
      rw [items_eq, List.flatMap_cons, sameTruths_append] at here
      obtain ⟨name, member⟩ := entry
      dsimp only at here beneath ⊢
      rw [Path.extend_join]
      cases member with
      | field entry =>
          have own := sameTruths_map.mp here.1
          rw [Path.enclosing_join] at own
          exact congrArg Member.field (Field.refresh_congr own hiddenAbove disabledAbove)
      | fieldset group members =>
          rw [refresh, refresh, Group.refresh_congr (sameTruths_map.mp here.1)]
          exact congrArg _ (beneath here.2 _ _)

/-! ## Forms and frames -/

/-- What is induced at a place behind a path. -/
def InducedEvent.under (above : Path) (event : InducedEvent) : InducedEvent :=
  { event with path := above.extend event.path }

namespace Form

variable {form : Form} (same : SameTruths above plain spaced (form.conditions path))
include same

theorem refresh_congr : form.refresh spaced (above.extend path) = form.refresh plain path := by
  obtain ⟨own, rest⟩ := sameTruths_append.mp same
  rw [refresh, refresh, Group.refresh_congr (sameTruths_map.mp own),
    Member.refreshAll_congr (sameTruths_append.mp rest).2]

theorem holds_congr {inducer : Inducer} (inside : inducer ∈ form.inducers) :
    inducer.holds (above.extend path) spaced = inducer.holds path plain := by
  obtain ⟨-, rest⟩ := sameTruths_append.mp same
  exact List.forall_mem_map.mp (sameTruths_append.mp rest).1 inducer inside

theorem latch_congr : form.latch spaced (above.extend path) = form.latch plain path := by
  rw [latch, latch]
  refine congrArg (fun inducers => { form with inducers }) (List.map_congr_left fun inducer inside => ?_)
  rw [Inducer.latch, holds_congr same inside]
  rfl

theorem rising_congr :
    form.rising spaced (above.extend path) = (form.rising plain path).map (InducedEvent.under above) := by
  rw [rising, rising, List.map_map]
  refine congrArg (List.map _) (List.filter_congr fun inducer inside => ?_)
  rw [Inducer.rises, holds_congr same inside]
  rfl

end Form

namespace Frame

variable {frame : Frame} (same : SameTruths above plain spaced (frame.conditions path))
include same

theorem holds_congr {inducer : Inducer} (inside : inducer ∈ frame.inducer.toList) :
    inducer.holds (above.extend path) spaced = inducer.holds path plain :=
  List.forall_mem_map.mp same inducer inside

theorem latch_congr : frame.latch spaced (above.extend path) = frame.latch plain path := by
  cases own : frame.inducer with
  | none => simp [latch, own]
  | some inducer =>
      have held := @holds_congr _ _ _ _ _ same inducer (by simp [own])
      simp [latch, own, Inducer.latch, held]

theorem rising_congr :
    frame.rising spaced (above.extend path) = (frame.rising plain path).map (InducedEvent.under above) := by
  rw [rising, rising, List.map_map]
  refine congrArg (List.map _) (List.filter_congr fun inducer inside => ?_)
  rw [Inducer.rises, holds_congr same inside]
  rfl

end Frame

namespace Node

variable {node : Node} (same : SameTruths above plain spaced (node.conditions path))
include same

/-- All conditions of a node at and beneath another one are as true. -/
theorem sameTruths_of_mem {entry : Path × Node} (listed : entry ∈ node.nodes false path) :
    SameTruths above plain spaced (entry.2.listedHere Form.conditions Frame.conditions entry.1) :=
  sameTruths_flatMap.mp same entry listed

/-- The same flags are derived behind the path. -/
theorem refresh_congr : node.refresh spaced (above.extend path) = node.refresh plain path := by
  refine map_extend fun entry listed => ⟨fun content isForm => ?_, fun _ _ => rfl⟩
  have own := sameTruths_of_mem same listed
  obtain ⟨place, inner⟩ := entry
  rw [form?_eq_some_iff.mp isForm] at own
  exact Form.refresh_congr own

/-- The same is remembered of all inducers behind the path. -/
theorem latch_congr : node.latch spaced (above.extend path) = node.latch plain path := by
  refine map_extend fun entry listed => ?_
  have own := sameTruths_of_mem same listed
  obtain ⟨place, inner⟩ := entry
  cases inner with
  | form content =>
      refine ⟨fun found same => ?_, fun found none => by cases none⟩
      cases same
      exact Form.latch_congr own
  | collection frame progress members =>
      refine ⟨fun found none => (by cases none), fun found same => ?_⟩
      cases same
      exact Frame.latch_congr own
  | series frame template siblings =>
      refine ⟨fun found none => (by cases none), fun found same => ?_⟩
      cases same
      exact Frame.latch_congr own

/-- The same inducers turn true behind the path. -/
theorem rising_congr :
    node.rising spaced (above.extend path) = (node.rising plain path).map (InducedEvent.under above) := by
  rw [rising, rising, nodes_extend, Path.shift, List.flatMap_map, List.map_flatMap]
  refine List.flatMap_congr fun entry listed => ?_
  have own := sameTruths_of_mem same listed
  obtain ⟨place, inner⟩ := entry
  cases inner with
  | form content => exact Form.rising_congr own
  | collection frame progress members => exact Frame.rising_congr own
  | series frame template siblings => exact Frame.rising_congr own

end Node

end Formwork
