import Formwork.Proofs.InitialData

/-!
# Spellings of initial data

Initial data are nested (`Json.Nested`) if every key of every object is a single name and no object
has a key twice. Replacing dotted keys by nested objects always gives nested data, and nested data
stay as they are, so doing it twice is the same as doing it once
(`InitialData.expandKeys_expandKeys`).

The fields of an object at a key may be written behind the key, with a dot between, in the place of
the object and mixed with the fields around it (`InitialData.Spells`). Every such spelling stands for the
nested data (`InitialData.expandKeys_of_spells`). One of them writes all objects that way
(`Json.flatten`, `InitialData.spells_flatten`), unless an object or a list is empty, which leaves no key
behind.
-/

set_option autoImplicit false

namespace Formwork

open Formwork.Text

namespace Json

/-! ## What holds of all lists and objects in a value -/

mutual
/-- Induction over values; a list may use the statement for all its items, and an object for the values
of all its fields. -/
@[elab_as_elim]
theorem induction {motive : Json → Prop} (null : motive .null) (bool : ∀ value, motive (.bool value))
    (number : ∀ value, motive (.number value)) (text : ∀ value, motive (.text value))
    (list : ∀ items, (∀ item ∈ items, motive item) → motive (.list items))
    (object : ∀ fields, (∀ entry ∈ fields, motive entry.2) → motive (.object fields)) : ∀ value, motive value
  | .null => null
  | .bool value => bool value
  | .number value => number value
  | .text value => text value
  | .list items => list items (inductionItems null bool number text list object items)
  | .object fields => object fields (inductionFields null bool number text list object fields)

/-- `induction` for every item of a list. -/
theorem inductionItems {motive : Json → Prop} (null : motive .null) (bool : ∀ value, motive (.bool value))
    (number : ∀ value, motive (.number value)) (text : ∀ value, motive (.text value))
    (list : ∀ items, (∀ item ∈ items, motive item) → motive (.list items))
    (object : ∀ fields, (∀ entry ∈ fields, motive entry.2) → motive (.object fields)) :
    ∀ items : List Json, ∀ item ∈ items, motive item
  | [] => List.forall_mem_nil _
  | item :: rest => List.forall_mem_cons.mpr
      ⟨induction null bool number text list object item, inductionItems null bool number text list object rest⟩

/-- `induction` for the value of every field. -/
theorem inductionFields {motive : Json → Prop} (null : motive .null) (bool : ∀ value, motive (.bool value))
    (number : ∀ value, motive (.number value)) (text : ∀ value, motive (.text value))
    (list : ∀ items, (∀ item ∈ items, motive item) → motive (.list items))
    (object : ∀ fields, (∀ entry ∈ fields, motive entry.2) → motive (.object fields)) :
    ∀ fields : List (String × Json), ∀ entry ∈ fields, motive entry.2
  | [] => List.forall_mem_nil _
  | (_, value) :: rest => List.forall_mem_cons.mpr
      ⟨induction null bool number text list object value, inductionFields null bool number text list object rest⟩
end

/-- Every list and every object in a value, at any depth, is of a certain kind. -/
inductive Throughout (onList : List Json → Prop) (onObject : List (String × Json) → Prop) : Json → Prop where
  | null : Throughout onList onObject .null
  | bool (value : Bool) : Throughout onList onObject (.bool value)
  | number (value : Json.Number) : Throughout onList onObject (.number value)
  | text (value : String) : Throughout onList onObject (.text value)
  | list {items : List Json} (here : onList items) (inner : ∀ item ∈ items, Throughout onList onObject item) :
      Throughout onList onObject (.list items)
  | object {fields : List (String × Json)} (here : onObject fields)
      (inner : ∀ entry ∈ fields, Throughout onList onObject entry.2) : Throughout onList onObject (.object fields)

section

variable {onList : List Json → Prop} {onObject : List (String × Json) → Prop}

theorem throughout_list_iff {items : List Json} : Throughout onList onObject (.list items) ↔
    onList items ∧ ∀ item ∈ items, Throughout onList onObject item := by
  constructor
  · rintro (_ | _ | _ | _ | ⟨here, inner⟩ | _)
    exact ⟨here, inner⟩
  · exact fun ⟨here, inner⟩ => .list here inner

theorem throughout_object_iff {fields : List (String × Json)} : Throughout onList onObject (.object fields) ↔
    onObject fields ∧ ∀ entry ∈ fields, Throughout onList onObject entry.2 := by
  constructor
  · rintro (_ | _ | _ | _ | _ | ⟨here, inner⟩)
    exact ⟨here, inner⟩
  · exact fun ⟨here, inner⟩ => .object here inner

end

/-- No object has a key twice, and every key is a single name, not empty and without a dot. -/
def Nested : Json → Prop :=
  Throughout (fun _ => True) fun fields =>
    (Assoc.keys fields).Nodup ∧ ∀ key ∈ Assoc.keys fields, InitialData.IsName key

/-- No list and no object is empty. -/
def Full : Json → Prop := Throughout (· ≠ []) (· ≠ [])

theorem nested_object_iff {fields : List (String × Json)} : Nested (.object fields) ↔
    (Assoc.keys fields).Nodup ∧ ∀ entry ∈ fields, InitialData.IsName entry.1 ∧ entry.2.Nested := by
  simp only [Nested, throughout_object_iff, Assoc.keys, List.forall_mem_map, and_assoc, forall_and]

/-- The first field of a nested object has a name and a nested value, and no other field has its key. -/
theorem Nested.cons {key : String} {value : Json} {fields : List (String × Json)}
    (nested : Nested (.object ((key, value) :: fields))) :
    InitialData.IsName key ∧ value.Nested ∧ key ∉ Assoc.keys fields ∧ Nested (.object fields) := by
  obtain ⟨nodup, inner⟩ := nested_object_iff.mp nested
  obtain ⟨notLater, restNodup⟩ := List.nodup_cons.mp nodup
  obtain ⟨⟨named, valueNested⟩, restInner⟩ := List.forall_mem_cons.mp inner
  exact ⟨named, valueNested, notLater, nested_object_iff.mpr ⟨restNodup, restInner⟩⟩

end Json

namespace InitialData

/-! ## Nested data stay as they are -/

/-- A value that is placed elsewhere leaves the first field where it is. -/
theorem place_cons {key dotted : String} (elsewhere : (keyNames dotted).head? ≠ some key) (value other : Json)
    (placed : List (String × Json)) :
    place dotted value ((key, other) :: placed) = (key, other) :: place dotted value placed := by
  cases names : keyNames dotted with
  | nil => simp only [place, names]
  | cons first rest =>
      rw [names, List.head?_cons] at elsewhere
      have different : key ≠ first := fun same => elsewhere (congrArg some same.symm)
      rw [place_of_names names, place_of_names names]
      cases nest rest value with
      | object incoming =>
          simp only [merge, Assoc.get?, if_neg different]
          split <;> simp only [Assoc.set, if_neg different]
      | _ => simp only [merge, Assoc.set, if_neg different]

theorem expandFields_cons {key : String} {fields : List (String × Json)}
    (elsewhere : ∀ entry ∈ fields, (keyNames entry.1).head? ≠ some key) (value : Json)
    (placed : List (String × Json)) :
    expandFields fields ((key, value) :: placed) = (key, value) :: expandFields fields placed := by
  induction fields generalizing placed with
  | nil => rfl
  | cons entry rest ih =>
      obtain ⟨here, later⟩ := List.forall_mem_cons.mp elsewhere
      rw [expandFields, expandFields, place_cons here, ih later]

/-- The names of nested fields are the keys. -/
theorem head?_keyNames_of_nested {fields : List (String × Json)} (nested : Json.Nested (.object fields))
    {entry : String × Json} (inside : entry ∈ fields) : (keyNames entry.1).head? = some entry.1 := by
  rw [keyNames_of_name ((Json.nested_object_iff.mp nested).2 entry inside).1, List.head?_cons]

theorem place_nil {key : String} (named : IsName key) (value : Json) :
    place key value [] = [(key, value)] := by
  rw [place_of_names (keyNames_of_name named), merge_nil]
  rfl

theorem expandKeys_of_nested {value : Json} (nested : value.Nested) : expandKeys value = value := by
  induction value using Json.induction with
  | null | bool | number | text => rfl
  | list items ih =>
      have inner := (Json.throughout_list_iff.mp nested).2
      rw [expandKeys, expandItems_eq, List.map_congr_left fun item inside => ih item inside (inner item inside),
        List.map_id']
  | object fields ih =>
      rw [expandKeys]
      refine congrArg Json.object ?_
      induction fields with
      | nil => rfl
      | cons entry rest later =>
          obtain ⟨key, value⟩ := entry
          obtain ⟨named, valueNested, unique, restNested⟩ := nested.cons
          obtain ⟨same, ih⟩ := List.forall_mem_cons.mp ih
          rw [expandFields, same valueNested, place_nil named, expandFields_cons, later ih restNested]
          intro other inside
          rw [head?_keyNames_of_nested restNested inside]
          exact fun same => unique (Option.some.inj same ▸ List.mem_map_of_mem inside)

/-! ## Expanded data are nested -/

theorem nested_nest {names : List String} (named : ∀ name ∈ names, IsName name) {value : Json}
    (nested : value.Nested) : (nest names value).Nested := by
  induction names with
  | nil => exact nested
  | cons name rest ih =>
      obtain ⟨here, later⟩ := List.forall_mem_cons.mp named
      exact Json.nested_object_iff.mpr ⟨List.nodup_singleton name, by simpa using ⟨here, ih later⟩⟩

theorem nested_set {key : String} (named : IsName key) {value : Json} (inner : value.Nested)
    {fields : List (String × Json)} (nested : Json.Nested (.object fields)) :
    Json.Nested (.object (Assoc.set key value fields)) := by
  obtain ⟨nodup, inside⟩ := Json.nested_object_iff.mp nested
  refine Json.nested_object_iff.mpr ⟨Assoc.nodup_keys_set nodup key value, fun entry among => ?_⟩
  rcases Assoc.mem_set among with rfl | old
  · exact ⟨named, inner⟩
  · exact inside entry old

theorem nested_merge {key : String} (named : IsName key) {value : Json} (inner : value.Nested)
    {fields : List (String × Json)} (nested : Json.Nested (.object fields)) :
    Json.Nested (.object (merge key value fields)) := by
  induction value using Json.induction generalizing key fields with
  | null | bool | number | text | list => exact nested_set named inner nested
  | object incoming ih =>
      rw [merge]
      split
      · rename_i existing found
        refine nested_set named ?_ nested
        have there := ((Json.nested_object_iff.mp nested).2 _ (Assoc.mem_of_get?_eq_some found)).2
        have arriving := (Json.nested_object_iff.mp inner).2
        clear found inner
        induction incoming generalizing existing with
        | nil => exact there
        | cons entry rest later =>
            obtain ⟨here, ihRest⟩ := List.forall_mem_cons.mp ih
            obtain ⟨⟨entryNamed, entryNested⟩, restArriving⟩ := List.forall_mem_cons.mp arriving
            exact later ihRest _ (here entryNamed entryNested there) restArriving
      · exact nested_set named inner nested

theorem nested_place (key : String) {value : Json} (inner : value.Nested) {fields : List (String × Json)}
    (nested : Json.Nested (.object fields)) : Json.Nested (.object (place key value fields)) := by
  have named : ∀ name ∈ keyNames key, IsName name := fun _ => isName_of_mem_keyNames
  cases names : keyNames key with
  | nil =>
      rw [place, names]
      exact nested
  | cons first rest =>
      rw [names] at named
      obtain ⟨here, later⟩ := List.forall_mem_cons.mp named
      rw [place_of_names names]
      exact nested_merge here (nested_nest later inner) nested

theorem nested_expandKeys (value : Json) : (expandKeys value).Nested := by
  induction value using Json.induction with
  | null => exact .null
  | bool value => exact .bool value
  | number value => exact .number value
  | text value => exact .text value
  | list items ih =>
      rw [expandKeys, expandItems_eq]
      exact .list trivial (List.forall_mem_map.mpr ih)
  | object fields ih =>
      have empty : Json.Nested (.object []) := Json.nested_object_iff.mpr ⟨List.nodup_nil, List.forall_mem_nil _⟩
      rw [expandKeys]
      generalize ([] : List (String × Json)) = placed at empty ⊢
      induction fields generalizing placed with
      | nil => exact empty
      | cons entry rest later =>
          obtain ⟨here, ihRest⟩ := List.forall_mem_cons.mp ih
          rw [expandFields]
          exact later ihRest _ (nested_place entry.1 here empty)

/-- Dotted keys are replaced once and for all. -/
theorem expandKeys_expandKeys (value : Json) : expandKeys (expandKeys value) = expandKeys value :=
  expandKeys_of_nested (nested_expandKeys value)

/-! ## Spellings -/

/-- A field with its key behind another one and a dot between them. -/
def under (key : String) (entry : String × Json) : String × Json := (key ++ "." ++ entry.1, entry.2)

/-- A list is made of the items of two lists, each of them in its order. -/
inductive Mixed {α : Type} : List α → List α → List α → Prop where
  | nil : Mixed [] [] []
  | left (item : α) {first second mixed : List α} (rest : Mixed first second mixed) :
      Mixed (item :: first) second (item :: mixed)
  | right (item : α) {first second mixed : List α} (rest : Mixed first second mixed) :
      Mixed first (item :: second) (item :: mixed)

theorem Mixed.append {α : Type} (first second : List α) : Mixed first second (first ++ second) := by
  induction first with
  | nil =>
      induction second with
      | nil => exact .nil
      | cons item rest ih => exact .right item ih
  | cons item rest ih => exact .left item ih

theorem Mixed.mem {α : Type} {first second mixed : List α} (mixing : Mixed first second mixed) {item : α}
    (inside : item ∈ mixed) : item ∈ first ∨ item ∈ second := by
  induction mixing with
  | nil => cases inside
  | left head _ ih =>
      rcases List.mem_cons.mp inside with rfl | later
      · exact .inl List.mem_cons_self
      · exact (ih later).imp_left (List.mem_cons_of_mem _)
  | right head _ ih =>
      rcases List.mem_cons.mp inside with rfl | later
      · exact .inr List.mem_cons_self
      · exact (ih later).imp_right (List.mem_cons_of_mem _)

/-- A value says what a nested value says. In the place of an object at a key, its fields may be written
behind this key; the first of them decides the place of the object, and the others may be mixed with the
fields that follow. -/
inductive Spells : Json → Json → Prop where
  | same (value : Json) : Spells value value
  | item {spelled item : Json} {spelledItems items : List Json} (here : Spells spelled item)
      (rest : Spells (.list spelledItems) (.list items)) :
      Spells (.list (spelled :: spelledItems)) (.list (item :: items))
  | field (key : String) {spelled value : Json} {spelledFields fields : List (String × Json)}
      (here : Spells spelled value) (rest : Spells (.object spelledFields) (.object fields)) :
      Spells (.object ((key, spelled) :: spelledFields)) (.object ((key, value) :: fields))
  | dotted (key : String) {entry : String × Json} {entries inner spelledFields fields mixed : List (String × Json)}
      (here : Spells (.object (entry :: entries)) (.object inner))
      (rest : Spells (.object spelledFields) (.object fields))
      (mixing : Mixed (entries.map (under key)) spelledFields mixed) :
      Spells (.object (under key entry :: mixed)) (.object ((key, .object inner) :: fields))

theorem head?_keyNames_under {key : String} (named : IsName key) (entry : String × Json) :
    (keyNames (under key entry).1).head? = some key := by
  rw [under, keyNames_dot, keyNames_of_name named]
  rfl

/-- Every key of a spelling stands for names, of which the first is a key of the nested object. -/
theorem Spells.head?_mem {spelled fields : List (String × Json)} (spells : Spells (.object spelled) (.object fields))
    (nested : Json.Nested (.object fields)) {entry : String × Json} (inside : entry ∈ spelled) :
    ∃ key ∈ Assoc.keys fields, (keyNames entry.1).head? = some key := by
  generalize shown : Json.object spelled = first at spells
  generalize meant : Json.object fields = second at spells
  induction spells generalizing spelled fields with
  | same value =>
      obtain rfl : spelled = fields := Json.object.inj (shown.trans meant.symm)
      exact ⟨entry.1, List.mem_map_of_mem inside, head?_keyNames_of_nested nested inside⟩
  | item => cases shown
  | field key _ _ _ ihRest =>
      cases shown
      cases meant
      obtain ⟨named, -, -, restNested⟩ := nested.cons
      rcases List.mem_cons.mp inside with rfl | later
      · exact ⟨key, List.mem_cons_self, by rw [keyNames_of_name named, List.head?_cons]⟩
      · obtain ⟨other, among, same⟩ := ihRest restNested later rfl rfl
        exact ⟨other, List.mem_cons_of_mem _ among, same⟩
  | dotted key _ _ mixing _ ihRest =>
      cases shown
      cases meant
      obtain ⟨named, -, -, restNested⟩ := nested.cons
      rcases List.mem_cons.mp inside with rfl | later
      · exact ⟨key, List.mem_cons_self, head?_keyNames_under named _⟩
      · rcases mixing.mem later with own | other
        · obtain ⟨original, -, rfl⟩ := List.mem_map.mp own
          exact ⟨key, List.mem_cons_self, head?_keyNames_under named _⟩
        · obtain ⟨other, among, same⟩ := ihRest restNested other rfl rfl
          exact ⟨other, List.mem_cons_of_mem _ among, same⟩

/-- A field behind a key is placed among the fields of the object at that key. -/
theorem place_under {key : String} (named : IsName key) {entry : String × Json}
    (hasName : keyNames entry.1 ≠ []) (value : Json) (fields : List (String × Json)) :
    place (under key entry).1 value fields =
      Assoc.set key (.object (place entry.1 value (fieldsAt key fields))) fields := by
  obtain ⟨next, rest, names⟩ := List.exists_cons_of_ne_nil hasName
  have dotted : keyNames (under key entry).1 = key :: next :: rest := by
    rw [under, keyNames_dot, keyNames_of_name named, names]
    rfl
  rw [place_of_names dotted, merge_nest, place_of_names names]

/-- Fields behind a key are placed among the fields of the object at that key, whatever is placed elsewhere
in between. -/
theorem expandFields_mixed {key : String} (named : IsName key)
    {entries others mixed : List (String × Json)} (mixing : Mixed (entries.map (under key)) others mixed)
    (haveNames : ∀ entry ∈ entries, keyNames entry.1 ≠ [])
    (elsewhere : ∀ entry ∈ others, (keyNames entry.1).head? ≠ some key) (inner placed : List (String × Json)) :
    expandFields mixed ((key, .object inner) :: placed) =
      (key, .object (expandFields entries inner)) :: expandFields others placed := by
  generalize shown : entries.map (under key) = behind at mixing
  induction mixing generalizing entries inner placed with
  | nil =>
      rw [List.map_eq_nil_iff] at shown
      rw [shown]
      rfl
  | left item _ ih =>
      obtain ⟨entry, rest, rfl, rfl, rfl⟩ := List.map_eq_cons_iff.mp shown
      obtain ⟨here, later⟩ := List.forall_mem_cons.mp haveNames
      have own : fieldsAt key ((key, .object inner) :: placed) = inner := by
        simp only [fieldsAt, Assoc.get?, if_pos]
      have value : (under key entry).2 = entry.2 := rfl
      rw [expandFields, place_under named here, own, Assoc.set, if_pos rfl, ih later elsewhere _ _ rfl, value]
      rfl
  | right item _ ih =>
      obtain ⟨here, later⟩ := List.forall_mem_cons.mp elsewhere
      rw [expandFields, place_cons here, ih haveNames later _ _ shown]
      rfl

/-- Every spelling of nested data stands for them. -/
theorem expandKeys_of_spells {spelled value : Json} (spells : Spells spelled value) (nested : value.Nested) :
    expandKeys spelled = value := by
  induction spells with
  | same value => exact expandKeys_of_nested nested
  | item here rest ihHere ihRest =>
      obtain ⟨-, inner⟩ := Json.throughout_list_iff.mp nested
      obtain ⟨itemNested, restNested⟩ := List.forall_mem_cons.mp inner
      have same := Json.list.inj (ihRest (.list trivial restNested))
      rw [expandKeys, expandItems, ihHere itemNested, same]
  | @field key _ _ _ fields here rest ihHere ihRest =>
      obtain ⟨named, valueNested, unique, restNested⟩ := nested.cons
      have same := Json.object.inj (ihRest restNested)
      rw [expandKeys, expandFields, ihHere valueNested, place_nil named, expandFields_cons, same]
      intro entry inside found
      obtain ⟨other, among, head⟩ := rest.head?_mem restNested inside
      exact unique (Option.some.inj (found.symm.trans head) ▸ among)
  | @dotted key entry entries inner spelledFields fields mixed here rest mixing ihHere ihRest =>
      obtain ⟨named, innerNested, unique, restNested⟩ := nested.cons
      have sameInner := Json.object.inj (ihHere innerNested)
      have sameRest := Json.object.inj (ihRest restNested)
      have haveNames : ∀ other ∈ entry :: entries, keyNames other.1 ≠ [] := by
        intro other inside empty
        obtain ⟨_, -, head⟩ := here.head?_mem innerNested inside
        rw [empty] at head
        cases head
      have elsewhere : ∀ other ∈ spelledFields, (keyNames other.1).head? ≠ some key := by
        intro other inside found
        obtain ⟨name, among, head⟩ := rest.head?_mem restNested inside
        exact unique (Option.some.inj (found.symm.trans head) ▸ among)
      obtain ⟨someHere, someLater⟩ := List.forall_mem_cons.mp haveNames
      have value : (under key entry).2 = entry.2 := rfl
      rw [expandFields] at sameInner
      rw [expandKeys, expandFields, place_under named someHere, Assoc.set,
        expandFields_mixed named mixing someLater elsewhere, sameRest, value]
      exact congrArg (fun shown => Json.object ((key, .object shown) :: fields)) sameInner

end InitialData

/-! ## Flat data -/

mutual
/-- The value with all fields of objects inside objects written behind the keys of these objects. -/
def Json.flatten : Json → Json
  | .list items => .list (flattenItems items)
  | .object fields => .object (flattenFields fields)
  | other => other

/-- `flatten` on the items of a list. -/
def Json.flattenItems : List Json → List Json
  | [] => []
  | item :: rest => item.flatten :: flattenItems rest

/-- `flatten` on the fields of an object. -/
def Json.flattenFields : List (String × Json) → List (String × Json)
  | [] => []
  | (key, value) :: rest =>
    match value.flatten with
    | .object inner => inner.map (InitialData.under key) ++ flattenFields rest
    | flat => (key, flat) :: flattenFields rest
end

namespace InitialData

/-- Values without empty lists and objects can be read back from their flat form. -/
theorem spells_flatten {value : Json} (full : value.Full) : Spells value.flatten value := by
  induction value using Json.induction with
  | null | bool | number | text => exact .same _
  | list items ih =>
      have inner := (Json.throughout_list_iff.mp full).2
      clear full
      rw [Json.flatten]
      induction items with
      | nil => exact .same _
      | cons item rest later =>
          obtain ⟨here, ihRest⟩ := List.forall_mem_cons.mp ih
          obtain ⟨itemFull, restFull⟩ := List.forall_mem_cons.mp inner
          exact .item (here itemFull) (later ihRest restFull)
  | object fields ih =>
      have inner := (Json.throughout_object_iff.mp full).2
      clear full
      rw [Json.flatten]
      induction fields with
      | nil => exact .same _
      | cons entry rest later =>
          obtain ⟨key, value⟩ := entry
          obtain ⟨here, ihRest⟩ := List.forall_mem_cons.mp ih
          obtain ⟨valueFull, restFull⟩ := List.forall_mem_cons.mp inner
          have shown := here valueFull
          have behind := later ihRest restFull
          cases value with
          | object fields =>
              obtain ⟨some, -⟩ := Json.throughout_object_iff.mp valueFull
              rw [Json.flatten] at shown
              rw [Json.flattenFields, Json.flatten]
              cases flat : Json.flattenFields fields with
              | nil =>
                  rw [flat] at shown
                  cases shown
                  exact absurd rfl some
              | cons entry entries =>
                  rw [flat] at shown
                  exact .dotted key shown behind (.append _ _)
          | _ => exact .field key shown behind

end InitialData

end Formwork
