import Mathlib.Logic.Function.Basic
import Formwork.Proofs.Tree.Deeds
import Formwork.Proofs.Tree.Rest

/-!
# What conditions read

A path reads as the field that stands there (`Tree.lookup_eq`): a field with a value reads as this value, and
a button reads as whether it fires. So a value that is stored changes what is read at one path only
(`Tree.lookup_store`), and so does a button that fires (`Tree.lookup_fire`).
-/

set_option autoImplicit false

namespace Formwork

/-- A field that has stored a value reads as this value, fitted to its widget. -/
theorem Field.reading_setValue {entry : Field} (isValue : entry.isButton = false) (value : Value) (active : Bool) :
    (entry.setValue value).reading active = .value (entry.plan.widget.fit value) := by
  have stored : (entry.setValue value).value = entry.plan.widget.fit value :=
    congrArg Holding.value (entry.holding_setValue value)
  have still : (entry.setValue value).isButton = false := by
    unfold setValue
    dsimp only
    split <;> exact isValue
  rw [reading, still, stored]
  rfl

namespace Tree

/-- What a list of readings says is what its first entry at the path says. -/
theorem lookupIn_map {α : Type} (view : Path → α → Reading) (entries : List (Path × α)) (place : Path) :
    lookupIn (entries.map fun entry => (entry.1, view entry.1 entry.2)) place =
      (entries.find? fun entry => entry.1 = place).map fun entry => view entry.1 entry.2 := by
  induction entries with
  | nil => rfl
  | cons entry rest ih =>
      unfold lookupIn at ih ⊢
      rw [List.map_cons, List.findSome?_cons, List.find?_cons]
      by_cases here : entry.1 = place
      · simp [here]
      · simp [here, ih]

/-- What conditions read at a path is told by the first field there. -/
theorem lookup_eq_find (tree : Tree) (place : Path) :
    tree.lookup place =
      (tree.fields.find? fun entry => entry.1 = place).map fun entry => entry.2.reading (tree.fires entry.1) :=
  lookupIn_map (fun path (field : Field) => field.reading (tree.fires path)) tree.fields place

variable {tree : Tree}

theorem find?_fields (regular : tree.root.Regular) (place : Path) :
    (tree.fields.find? fun entry => entry.1 = place) = (tree.field? place).map (place, ·) := by
  cases found : tree.fields.find? fun entry => entry.1 = place with
  | none =>
      have missing : tree.field? place = none := by
        refine Option.eq_none_iff_forall_not_mem.mpr fun field stands => ?_
        have listed := (field?_eq_some_iff regular).mp stands
        simpa using List.find?_eq_none.mp found _ listed
      rw [missing]
      rfl
  | some entry =>
      obtain ⟨path, field⟩ := entry
      have here : path = place := by simpa using List.find?_some found
      subst here
      rw [(field?_eq_some_iff regular).mpr (List.mem_of_find?_eq_some found)]
      rfl

/-- A path reads as the field that stands there. -/
theorem lookup_eq (regular : tree.root.Regular) (place : Path) :
    tree.lookup place = (tree.field? place).map fun field => field.reading (tree.fires place) := by
  rw [lookup_eq_find, find?_fields regular, Option.map_map]
  rfl

/-! ## Changes of what is read -/

theorem fires_of_quiet (quiet : tree.firing = none) (place : Path) : tree.fires place = false := by
  rw [fires, quiet]

variable (regular : tree.root.Regular)
include regular

theorem fields_setValue (place : Path) (value : Value) :
    (tree.change place (Node.modifyField (Field.setValue value))).fields = tree.fields.map fun entry =>
      (entry.1, if entry.1 = place then entry.2.setValue value else entry.2) := by
  unfold change
  split
  · rename_i segments below
    obtain rfl := below?_eq_some_iff.mp below
    exact Node.fields_modifyField regular (Field.setValue value) tree.here segments
  · rename_i outside
    refine (List.map_id _).symm.trans (List.map_congr_left fun entry listed => ?_)
    obtain ⟨front, content, names, same, -⟩ := Node.mem_fields_iff.mp listed
    have elsewhere : entry.1 ≠ place := by
      rintro rfl
      rw [below?_eq_some_iff.mpr same] at outside
      cases outside
    exact congrArg (entry.1, ·) (if_neg elsewhere).symm

omit regular in
theorem fires_change (place : Path) (edit : List String → Node → Node) :
    (tree.change place edit).fires = tree.fires := by
  funext path
  rw [fires, fires, firing_change]

omit regular in
/-- Touching siblings changes nothing that is read. -/
theorem lookup_touch (tree : Tree) (place : Path) : (tree.change place Node.touch).lookup = tree.lookup := by
  unfold change
  split
  · exact lookup_congr rfl rfl (Node.views_touch _ _ _)
  · rfl

/-- A value that is stored is read where it is stored, as the widget fits it, and nothing else is read
otherwise. -/
theorem lookup_store {place : Path} {field : Field} (stands : tree.field? place = some field)
    (isValue : field.isButton = false) (value : Value) :
    (tree.store place value).lookup =
      Function.update tree.lookup place (some (.value (field.plan.widget.fit value))) := by
  rw [store, lookup_touch]
  funext path
  have found := find?_fields regular path
  rw [lookup_eq_find, fields_setValue regular, List.find?_map, fires_change, Option.map_map]
  change Option.map _ (tree.fields.find? fun entry => entry.1 = path) = _
  rw [found, Option.map_map]
  by_cases here : path = place
  · subst here
    rw [stands, Function.update_self]
    simp only [Option.map_some, Function.comp_apply, if_true, Field.reading_setValue isValue]
  · rw [Function.update_of_ne here, lookup_eq regular]
    refine congrArg (fun view => Option.map view (tree.field? path)) (funext fun other => ?_)
    simp only [Function.comp_apply, if_neg here]

/-- A button that fires is read as firing, and nothing else is read otherwise. -/
theorem lookup_fire {place : Path} {field : Field} (stands : tree.field? place = some field)
    (isButton : field.isButton = true) (quiet : tree.firing = none) (arguments : List String) :
    ({ tree with firing := some ⟨place, arguments⟩ } : Tree).lookup =
      Function.update tree.lookup place (some (.button true)) := by
  funext path
  have same := @lookup_eq { tree with firing := some ⟨place, arguments⟩ } regular path
  rw [same]
  change (tree.field? path).map _ = _
  by_cases here : path = place
  · subst here
    rw [stands, Function.update_self, Option.map_some]
    simp [Field.reading, isButton, fires]
  · rw [Function.update_of_ne here, lookup_eq regular]
    refine congrArg (fun view => Option.map view (tree.field? path)) (funext fun other => ?_)
    have apart : (place == path) = false := beq_eq_false_iff_ne.mpr (Ne.symm here)
    rw [fires_of_quiet quiet]
    exact congrArg (fun active => other.reading active) apart

end Tree

end Formwork
