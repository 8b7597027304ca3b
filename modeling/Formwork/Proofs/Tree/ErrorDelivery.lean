import Formwork.Proofs.Tree.Dialogs
import Formwork.Proofs.Tree.ErrorRouting
import Formwork.Proofs.Tree.Slots
import Formwork.Proofs.Tree.Steps

/-!
# Where the messages of a server go

The messages under a key go to the field that the key means, which they replace what was known about; or else to the
form or fieldset that it means, behind the messages that are in its slot; or else behind those that belong to no
place (`Tree.Receives`). No place is both, so they always go to one of the three, and if no two keys mean the same
place, nothing that is handed over gets lost (`Tree.Reachable.delivers`). Everything else about a tree stays as it
is.
-/

set_option autoImplicit false

namespace Formwork.Tree

/-! ## Several keys -/

section Keys

variable (tree : Tree) (messages : Messages)

/-- What becomes of the field at a place: the messages that come last are recorded. -/
def recorded (place : Path) (field : Field) : Field :=
  messages.foldl (fun field entry => if place = tree.target entry.1 then field.setErrors entry.2 else field) field

variable {tree messages} {place : Path}

theorem recorded_of_apart (apart : ∀ entry ∈ messages, tree.target entry.1 ≠ place) (field : Field) :
    tree.recorded messages place field = field := by
  induction messages with
  | nil => rfl
  | cons entry rest ih =>
      obtain ⟨first, others⟩ := List.forall_mem_cons.mp apart
      rw [recorded, List.foldl_cons, if_neg (Ne.symm first)]
      exact ih others

theorem handedTo_of_apart (apart : ∀ entry ∈ messages, tree.target entry.1 ≠ place) :
    tree.handedTo messages place = [] := by
  rw [handedTo, List.filter_eq_nil_iff.mpr fun entry inside => ?_, List.flatMap_nil]
  simpa using apart entry inside

section Distinct

variable (distinct : (messages.map fun entry => tree.target entry.1).Nodup) {key : String} {contents : List String}
variable (inside : (key, contents) ∈ messages)
include distinct inside

/-- Where no two keys mean the same place, all others mean other places than a given one. -/
theorem exists_apart : ∃ front back, messages = front ++ ([(key, contents)] ++ back) ∧
    (∀ entry ∈ front, tree.target entry.1 ≠ tree.target key) ∧
      ∀ entry ∈ back, tree.target entry.1 ≠ tree.target key := by
  obtain ⟨front, back, rfl⟩ := List.append_of_mem inside
  rw [List.map_append, List.map_cons, List.nodup_append] at distinct
  obtain ⟨-, behind, between⟩ := distinct
  refine ⟨front, back, rfl, fun entry before => ?_, fun entry after same => ?_⟩
  · exact between _ (List.mem_map_of_mem before) _ List.mem_cons_self
  · exact (List.nodup_cons.mp behind).1 (same ▸ List.mem_map_of_mem after)

theorem recorded_of_mem (field : Field) :
    tree.recorded messages (tree.target key) field = field.setErrors contents := by
  obtain ⟨front, back, rfl, before, after⟩ := exists_apart distinct inside
  have first := recorded_of_apart before field
  rw [recorded] at first ⊢
  rw [List.foldl_append, first, List.foldl_append, List.foldl_cons, if_pos rfl]
  exact recorded_of_apart after (field.setErrors contents)

theorem handedTo_of_mem : tree.handedTo messages (tree.target key) = contents := by
  obtain ⟨front, back, rfl, before, after⟩ := exists_apart distinct inside
  rw [handedTo_append, handedTo_append, handedTo_of_apart before, handedTo_of_apart after, handedTo_single_self,
    List.nil_append, List.append_nil]

end Distinct

end Keys

/-! ## What messages do to the fields -/

section Effects

variable {tree : Tree} (regular : tree.root.Regular)
include regular

/-- A key goes astray if neither a field nor a form or fieldset is listed at the place that it means. -/
theorem isAstray_iff {key : String} : tree.isAstray key = true ↔
    (∀ field, (tree.target key, field) ∉ tree.fields) ∧ ∀ group, (tree.target key, group) ∉ tree.groups := by
  simp only [isAstray, Bool.and_eq_true, Bool.not_eq_true', Option.isSome_eq_false_iff, Option.isNone_iff_eq_none,
    Option.eq_none_iff_forall_ne_some, Ne, field?_eq_some_iff regular, group?_eq_some_iff regular]

/-- What messages leave of the fields. -/
theorem fields_applyErrors (messages : Messages) : (tree.applyErrors messages).fields =
    tree.fields.map fun entry => (entry.1, tree.recorded messages entry.1 entry.2) := by
  induction messages generalizing tree with
  | nil => exact (List.map_id _).symm
  | cons entry rest ih =>
      obtain ⟨key, contents⟩ := entry
      have notes := tree.applyMessages_notes key contents
      have later : tree.applyErrors ((key, contents) :: rest) =
          (tree.applyMessages key contents).applyErrors rest := rfl
      rw [later, ih (regular.follows notes.moves.retains.toFollows), fields_applyMessages regular, List.map_map]
      refine List.map_congr_left fun entry _ => Prod.ext rfl ?_
      simp only [Function.comp_apply, recorded, notes.alike.target, List.foldl_cons]

end Effects

/-! ## Delivery -/

theorem Notes.steppers {tree after : Tree} (notes : Notes tree after) : after.steppers = tree.steppers := by
  induction notes with
  | refl => rfl
  | tail _ last same => exact last.steppers.trans same

/-- Where the messages under a key are once they were handed over. -/
inductive Receives (tree after : Tree) (key : String) (contents : List String) : Prop where
  /-- A field stands at the place that the key means. The messages are all that is known of it, and without any it is
  valid. -/
  | field {field : Field} (there : (tree.target key, field) ∈ tree.fields)
      (noGroup : ∀ group, (tree.target key, group) ∉ tree.groups) (claimed : tree.isAstray key = false)
      (recorded : (tree.target key, { field with
        validity := if contents.isEmpty then .valid else .invalid contents }) ∈ after.fields)
  /-- A form or fieldset stands at the place. Its slot has the messages behind those that it had. -/
  | group {group : Group} (noField : ∀ field, (tree.target key, field) ∉ tree.fields)
      (there : (tree.target key, group) ∈ tree.groups) (claimed : tree.isAstray key = false)
      (appended : (tree.target key, { group with errors := group.errors ++ contents }) ∈ after.groups)
  /-- Neither stands there. -/
  | none (noField : ∀ field, (tree.target key, field) ∉ tree.fields)
      (noGroup : ∀ group, (tree.target key, group) ∉ tree.groups) (astray : tree.isAstray key = true)

/-- All messages are where they belong, and nothing else has changed. -/
structure Delivers (tree after : Tree) (messages : Messages) : Prop where
  received : ∀ entry ∈ messages, tree.Receives after entry.1 entry.2
  /-- What nobody receives goes behind the other messages that belong to no place, in order. -/
  strayErrors : after.strayErrors = tree.strayErrors ++
    (messages.filter fun entry => tree.isAstray entry.1).flatMap Prod.snd
  /-- No other field is changed. -/
  fields : ∀ path field, (path, field) ∈ tree.fields → (∀ entry ∈ messages, tree.target entry.1 ≠ path) →
    (path, field) ∈ after.fields
  /-- No other form or fieldset is changed. -/
  groups : ∀ path group, (path, group) ∈ tree.groups → (∀ entry ∈ messages, tree.target entry.1 ≠ path) →
    (path, group) ∈ after.groups
  /-- The siblings are the same, pristine or not. -/
  siblings : after.markings = tree.markings
  steppers : after.steppers = tree.steppers
  dialogs : after.openDialogs = tree.openDialogs
  /-- Nothing but messages has changed: without them the two trees are equal. -/
  rest : after.clearErrors = tree.clearErrors

variable {tree : Tree}

/-- If no two keys mean the same place, everything that a server hands over is delivered to exactly one place, and a
reachable tree is not changed in any other way. -/
theorem Reachable.delivers (reachable : tree.Reachable) {messages : Messages}
    (distinct : (messages.map fun entry => tree.target entry.1).Nodup) :
    tree.Delivers (tree.after (.applyErrors messages)) messages := by
  have regular := reachable.regular
  have notes : Notes tree (tree.after (.applyErrors messages)) := tree.applyErrors_notes messages
  have fields : (tree.after (.applyErrors messages)).fields = _ := fields_applyErrors regular messages
  have slots : _ ∧ (tree.after (.applyErrors messages)).groups = _ := applyErrors_slots regular messages
  have listedField {path : Path} {field : Field} (listed : (path, field) ∈ tree.fields) :
      (path, tree.recorded messages path field) ∈ (tree.after (.applyErrors messages)).fields := by
    rw [fields]
    exact List.mem_map.mpr ⟨_, listed, rfl⟩
  have listedGroup {path : Path} {group : Group} (listed : (path, group) ∈ tree.groups) :
      (path, group.addErrors (tree.handedTo messages path)) ∈ (tree.after (.applyErrors messages)).groups := by
    rw [slots.2]
    exact List.mem_map.mpr ⟨_, listed, rfl⟩
  refine ⟨?_, slots.1, ?_, ?_, notes.alike.markings, notes.steppers, notes.openDialogs,
    tree.clearErrors_applyErrors messages⟩
  · intro entry inside
    obtain ⟨key, contents⟩ := entry
    cases isField : tree.field? (tree.target key) with
    | some field =>
        have listed := (field?_eq_some_iff regular).mp isField
        have recorded := listedField listed
        rw [recorded_of_mem distinct inside] at recorded
        refine .field listed (fun group there => ?_) (by simp [isAstray, isField]) recorded
        rw [field?_eq_none_of_group regular there] at isField
        cases isField
    | none =>
        have noField : ∀ field, (tree.target key, field) ∉ tree.fields := by
          intro field there
          rw [(field?_eq_some_iff regular).mpr there] at isField
          cases isField
        cases isGroup : tree.group? (tree.target key) with
        | some group =>
            have listed := (group?_eq_some_iff regular).mp isGroup
            have appended := listedGroup listed
            rw [handedTo_of_mem distinct inside] at appended
            exact .group noField listed (by simp [isAstray, isGroup]) appended
        | none =>
            have astray : tree.isAstray key = true := by simp [isAstray, isField, isGroup]
            exact .none noField ((isAstray_iff regular).mp astray).2 astray
  · intro path field listed apart
    have kept := listedField listed
    rwa [recorded_of_apart apart] at kept
  · intro path group listed apart
    have kept := listedGroup listed
    rwa [handedTo_of_apart apart, Group.addErrors_nil] at kept

/-- Messages about a field and a form of the first order, and some that are about nothing: the series itself, and a
path that goes on behind a field. -/
def complaints : Messages :=
  [("0.order.size", ["Sold out."]), ("0.order.__all__", ["Too late."]), ("__all__", ["Closed."]),
    ("1.order.size.unit", ["Unknown."])]

theorem delivers_complaints : ∃ tree, Tree.mount orders none = .ok tree ∧
    (complaints.map fun entry => tree.target entry.1).Nodup ∧
      (complaints.map fun entry => tree.isAstray entry.1) = [false, false, true, true] ∧
        tree.Delivers (tree.after (.applyErrors complaints)) complaints := by
  have means : ((Tree.mount orders none).toOption.map fun tree =>
      (decide (complaints.map fun entry => tree.target entry.1).Nodup,
        complaints.map fun entry => tree.isAstray entry.1)) = some (true, [false, false, true, true]) := by
    decide +kernel
  obtain ⟨tree, mounted, means⟩ := Option.map_eq_some_iff.mp means
  rw [toOption_eq_some] at mounted
  injection means with distinct astray
  have isDistinct := of_decide_eq_true distinct
  exact ⟨tree, mounted, isDistinct, astray, Reachable.delivers (.mounted mounted) isDistinct⟩

end Formwork.Tree
