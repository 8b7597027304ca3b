import Mathlib.Data.List.Basic
import Formwork.InitialData
import Formwork.Proofs.Node.Payload

/-!
# What initial data say at a path

Data are looked up in name by name, so a value counts for the names that its dotted key stands for
(`InitialData.at?_expandKeys`). This holds of all fields of an object together if no key stands for a
beginning of what another key stands for (`InitialData.Apart`): then no value is put into the way of
another one, and objects that meet at a key are merged.

The dotted text of a path stands for the names of the path (`InitialData.keyNames_text`), and the values
of fields hold no keys (`InitialData.expandKeys_toWire`).
-/

set_option autoImplicit false

namespace Formwork

open Formwork.Text

/-- The location inside nested objects. -/
def Json.Location.ofNames (names : List String) : Json.Location := names.map .key

theorem Json.at?_ofNames_cons (name : String) (names : List String) (value : Json) :
    value.at? (Location.ofNames (name :: names)) =
      (value.field? name).bind fun inner => inner.at? (Location.ofNames names) := by
  cases value with
  | object fields => rfl
  | null => rfl
  | bool _ => rfl
  | number _ => rfl
  | text _ => rfl
  | list _ => rfl

theorem Json.at?_ofNames_single (name : String) (value : Json) :
    value.at? (Location.ofNames [name]) = value.field? name := by
  rw [at?_ofNames_cons]
  exact Option.bind_fun_some _

namespace InitialData

/-! ## The names that a key stands for -/

theorem keyNames_dot (first second : String) :
    keyNames (first ++ "." ++ second) = keyNames first ++ keyNames second := by
  have around : (first ++ "." ++ second).toList = first.toList ++ '.' :: second.toList := by
    simp
  simp only [keyNames, around, pieces_append, List.map_append, List.filter_append]

/-- A key that is a single name, not empty and without a dot. -/
def IsName (key : String) : Prop := key ≠ "" ∧ '.' ∉ key.toList

theorem isName_of_plain {name : String} (plain : Path.Plain name) : IsName name := ⟨plain.nonempty, plain.dotless⟩

theorem keyNames_of_name {name : String} (named : IsName name) : keyNames name = [name] := by
  simp [keyNames, pieces_of_not_mem named.2, named.1]

theorem isName_of_mem_keyNames {key name : String} (inside : name ∈ keyNames key) : IsName name := by
  obtain ⟨piece, kept, rfl⟩ := List.mem_map.mp inside
  obtain ⟨isPiece, some⟩ := List.mem_filter.mp kept
  refine ⟨fun empty => ?_, ?_⟩
  · rw [String.ofList_eq_empty_iff] at empty
    simp [empty] at some
  · rw [String.toList_ofList]
    exact not_mem_of_mem_pieces isPiece

/-- The dotted text of a path of plain segments stands for these segments. -/
theorem keyNames_text {names : List String} (plain : ∀ name ∈ names, Path.Plain name) :
    keyNames (Path.text ⟨names⟩) = names := by
  unfold Path.text
  induction names with
  | nil => rfl
  | cons name rest ih =>
      cases rest with
      | nil =>
          rw [String.intercalate_singleton]
          exact keyNames_of_name (isName_of_plain (plain name (.head _)))
      | cons other others =>
          rw [String.intercalate_cons_cons, keyNames_dot, keyNames_of_name (isName_of_plain (plain name (.head _))),
            ih fun name inside => plain name (.tail _ inside)]
          rfl

/-! ## Placing a value -/

/-- Neither of two lists of names is a beginning of the other. -/
def Apart (first second : List String) : Prop := ¬ first <+: second ∧ ¬ second <+: first

theorem Apart.symm {first second : List String} (apart : Apart first second) : Apart second first :=
  ⟨apart.2, apart.1⟩

theorem Apart.exists_cons {first second : List String} (apart : Apart first second) :
    ∃ name rest, second = name :: rest := by
  refine List.exists_cons_of_ne_nil ?_
  rintro rfl
  exact apart.2 List.nil_prefix

theorem apart_cons_iff {first second : String} {rest others : List String} :
    Apart (first :: rest) (second :: others) ↔ (first = second → Apart rest others) := by
  simp only [Apart, List.cons_prefix_cons]
  by_cases same : first = second
  · simp [same]
  · simp [same, Ne.symm same]

theorem apart_of_ne {first second : String} (different : first ≠ second) : Apart [first] [second] :=
  apart_cons_iff.mpr fun same => absurd same different

/-- The fields of the object at a key, none if there is no object. -/
def fieldsAt (key : String) (fields : List (String × Json)) : List (String × Json) :=
  match Assoc.get? key fields with
  | some (.object inner) => inner
  | _ => []

theorem at?_fieldsAt (key name : String) (names : List String) (fields : List (String × Json)) :
    (Json.object (fieldsAt key fields)).at? (.ofNames (name :: names)) =
      (Json.object fields).at? (.ofNames (key :: name :: names)) := by
  rw [Json.at?_ofNames_cons key, Json.field?, fieldsAt]
  cases Assoc.get? key fields with
  | none => rfl
  | some value => cases value <;> rfl

theorem merge_nil (key : String) (value : Json) : merge key value [] = [(key, value)] := by
  cases value <;> simp [merge, Assoc.get?, Assoc.set]

/-- A nested value is merged into the object at its first name. -/
theorem merge_nest (first next : String) (rest : List String) (value : Json)
    (fields : List (String × Json)) :
    merge first (nest (next :: rest) value) fields =
      Assoc.set first (.object (merge next (nest rest value) (fieldsAt first fields))) fields := by
  have nested : nest (next :: rest) value = .object [(next, nest rest value)] := rfl
  rw [nested, merge, fieldsAt]
  cases Assoc.get? first fields with
  | none => rw [merge_nil]
  | some existing => cases existing <;> simp only [mergeAll, merge_nil]

theorem field?_set (key other : String) (value : Json) (fields : List (String × Json)) :
    (Json.object (Assoc.set key value fields)).field? other =
      if other = key then some value else (Json.object fields).field? other :=
  Assoc.get?_set fields key other value

/-- A value that is placed where there was none is found there. -/
theorem at?_merge_self {first : String} {rest : List String} (value : Json)
    {fields : List (String × Json)} (absent : (Json.object fields).at? (.ofNames (first :: rest)) = none) :
    (Json.object (merge first (nest rest value) fields)).at? (.ofNames (first :: rest)) = some value := by
  induction rest generalizing first fields with
  | nil =>
      rw [Json.at?_ofNames_single, Json.field?] at absent
      have merged : merge first (nest [] value) fields = Assoc.set first value fields := by
        rw [nest, List.foldr_nil]
        cases value <;> simp only [merge, absent]
      rw [merged, Json.at?_ofNames_single, field?_set, if_pos rfl]
  | cons next rest ih =>
      rw [merge_nest, Json.at?_ofNames_cons, field?_set, if_pos rfl, Option.bind_some]
      refine ih ?_
      rw [at?_fieldsAt]
      exact absent

theorem exists_set_eq_merge (key : String) (value : Json) (fields : List (String × Json)) :
    ∃ changed, merge key value fields = Assoc.set key changed fields := by
  cases value with
  | object incoming =>
      rw [merge]
      split
      · exact ⟨_, rfl⟩
      · exact ⟨_, rfl⟩
  | _ => exact ⟨_, rfl⟩

/-- Placing a value changes nothing at names apart from it. -/
theorem at?_merge_of_apart {first : String} {rest others : List String} (value : Json)
    {fields : List (String × Json)} (apart : Apart (first :: rest) others) :
    (Json.object (merge first (nest rest value) fields)).at? (.ofNames others) =
      (Json.object fields).at? (.ofNames others) := by
  induction rest generalizing first others fields with
  | nil =>
      obtain ⟨second, others, rfl⟩ := apart.exists_cons
      have different : second ≠ first := fun same =>
        (apart_cons_iff.mp apart same.symm).1 List.nil_prefix
      obtain ⟨changed, merged⟩ := exists_set_eq_merge first (nest [] value) fields
      rw [merged, Json.at?_ofNames_cons, Json.at?_ofNames_cons, field?_set, if_neg different]
  | cons next rest ih =>
      obtain ⟨second, others, rfl⟩ := apart.exists_cons
      rw [merge_nest, Json.at?_ofNames_cons, field?_set]
      split
      · rename_i same
        subst same
        have inner := apart_cons_iff.mp apart rfl
        obtain ⟨third, others, rfl⟩ := inner.exists_cons
        rw [Option.bind_some, ih inner, at?_fieldsAt]
      · rw [Json.at?_ofNames_cons]

/-! ## Expanding keys -/

theorem expandItems_eq (items : List Json) : expandItems items = items.map expandKeys := by
  induction items with
  | nil => rfl
  | cons item rest ih => rw [expandItems, ih, List.map_cons]

/-- The values of fields hold no keys. -/
theorem expandKeys_toWire (value : Value) : expandKeys value.toWire = value.toWire := by
  cases value with
  | text content => rfl
  | flag checked => rfl
  | many choices =>
      rw [Value.toWire, Json.texts, expandKeys, expandItems_eq, List.map_map]
      rfl

theorem place_of_names {key first : String} {rest : List String} (names : keyNames key = first :: rest)
    (value : Json) (fields : List (String × Json)) :
    place key value fields = merge first (nest rest value) fields := by
  rw [place, names]

/-- Expanding fields changes nothing at names apart from all of their keys. -/
theorem at?_expandFields_of_apart {entries placed : List (String × Json)} {names : List String}
    (apart : ∀ entry ∈ entries, Apart (keyNames entry.1) names) :
    (Json.object (expandFields entries placed)).at? (.ofNames names) =
      (Json.object placed).at? (.ofNames names) := by
  induction entries generalizing placed with
  | nil => rfl
  | cons entry rest ih =>
      obtain ⟨here, later⟩ := List.forall_mem_cons.mp apart
      obtain ⟨first, others, same⟩ := here.symm.exists_cons
      rw [expandFields, ih later, place_of_names same, at?_merge_of_apart]
      rwa [← same]

/-- Fields whose keys are apart are all found among the expanded ones. -/
theorem at?_expandFields {entries placed : List (String × Json)}
    (apart : entries.Pairwise fun first second => Apart (keyNames first.1) (keyNames second.1))
    (absent : ∀ entry ∈ entries, (Json.object placed).at? (.ofNames (keyNames entry.1)) = none)
    {entry : String × Json} (inside : entry ∈ entries) :
    (Json.object (expandFields entries placed)).at? (.ofNames (keyNames entry.1)) =
      some (expandKeys entry.2) := by
  induction entries generalizing placed with
  | nil => cases inside
  | cons head rest ih =>
      obtain ⟨apartHead, apartRest⟩ := List.pairwise_cons.mp apart
      obtain ⟨absentHead, absentRest⟩ := List.forall_mem_cons.mp absent
      cases names : keyNames head.1 with
      | nil =>
          rw [names] at absentHead
          cases absentHead
      | cons first others =>
          rw [names] at absentHead apartHead
          rw [expandFields, place_of_names names]
          rcases List.mem_cons.mp inside with rfl | later
          · rw [names, at?_expandFields_of_apart, at?_merge_self _ absentHead]
            exact fun other among => (apartHead other among).symm
          · refine ih apartRest (fun other among => ?_) later
            rw [at?_merge_of_apart _ (apartHead other among)]
            exact absentRest other among

/-- In an object whose keys are apart every value is found, with its own keys expanded, at the names that
its key stands for. -/
theorem at?_expandKeys {fields : List (String × Json)}
    (apart : fields.Pairwise fun first second => Apart (keyNames first.1) (keyNames second.1))
    (named : ∀ entry ∈ fields, keyNames entry.1 ≠ []) {entry : String × Json} (inside : entry ∈ fields) :
    (expandKeys (.object fields)).at? (.ofNames (keyNames entry.1)) = some (expandKeys entry.2) := by
  rw [expandKeys]
  refine at?_expandFields apart (fun other among => ?_) inside
  obtain ⟨first, rest, same⟩ := List.exists_cons_of_ne_nil (named other among)
  rw [same, Json.at?_ofNames_cons]
  rfl

end InitialData

end Formwork
