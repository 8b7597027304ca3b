import Formwork.Proofs.Node.Stepping

/-!
# The places of a form

What stands in a form has two descriptions: the enumeration `Member.itemsAll`, which computes
paths on the way down, and the lookup `Member.find?`, which follows names. Both are measured here
against a third one, the relation `Member.Stands`, which says that some names lead from the
members of a group to a member. Where names are distinct, the enumeration lists every place once
(`Member.nodup_items`) and the lookup finds what is listed and nothing else
(`Member.find?_eq_some_iff`).

A change at some names changes the item at that place in the enumeration and no other one
(`Member.itemsAll_modifyAt`).
-/

set_option autoImplicit false

namespace Formwork

/-- Paths that lead beneath different fronts of one length are different. -/
theorem Path.nodup_flatMap_extend {α : Type} (path : Path) (front : α → List String) {items : List α}
    {places : α → List Path} (nodup : (items.map front).Nodup)
    (sameLength : ∀ first ∈ items, ∀ second ∈ items, (front first).length = (front second).length)
    (each : ∀ item ∈ items, (places item).Nodup)
    (beneath : ∀ item ∈ items, ∀ place ∈ places item, ∃ rest, place = path.extend ⟨front item ++ rest⟩) :
    (items.flatMap places).Nodup := by
  refine List.nodup_flatMap.mpr ⟨each, (List.pairwise_map.mp nodup).imp_of_mem ?_⟩
  intro first second inFirst inSecond apart place firstPlace secondPlace
  obtain ⟨rest, placeFirst⟩ := beneath first inFirst place firstPlace
  obtain ⟨other, placeSecond⟩ := beneath second inSecond place secondPlace
  have same := congrArg Path.segments (extend_injective (placeFirst.symm.trans placeSecond))
  exact apart (List.append_inj_left same (sameLength first inFirst second inSecond))

theorem Path.extend_cons_ne {path : Path} {first : String} {rest : List String} :
    path ≠ path.extend ⟨first :: rest⟩ := by
  intro same
  have lengths := congrArg (List.length ∘ Path.segments) same
  simp [extend] at lengths

namespace Member

/-- What stands at the place of a member itself. -/
def item : Member → Item
  | .field entry => .field entry
  | .fieldset group _ => .fieldset group

/-- What stands beneath a member. -/
def inner : Member → List (String × Member)
  | .field _ => []
  | .fieldset _ members => members

/-- Induction over the members of a group; the statement may be used for what stands beneath each of
them. -/
@[elab_as_elim]
theorem groupInduction {motive : List (String × Member) → Prop}
    (step : ∀ members, (∀ entry ∈ members, motive (inner entry.2)) → motive members)
    (members : List (String × Member)) : motive members := by
  refine step members ?_
  intro entry _
  induction entry.2 using Member.induction with
  | field entry => exact step [] (by simp)
  | fieldset group members ih => exact step members ih

/-- Some names lead from the members of a group to a member. -/
inductive Stands : List (String × Member) → List String → Member → Prop where
  | here {members : List (String × Member)} {name : String} {member : Member}
      (inside : (name, member) ∈ members) : Stands members [name] member
  | beneath {members : List (String × Member)} {name : String} {names : List String}
      {outer member : Member} (inside : (name, outer) ∈ members)
      (below : Stands outer.inner names member) : Stands members (name :: names) member

theorem items_eq (path : Path) (member : Member) :
    member.items path = (path, member.item) :: itemsAll path member.inner := by
  cases member <;> rfl

theorem mem_itemsAll {path : Path} {members : List (String × Member)} {entry : Path × Item} :
    entry ∈ itemsAll path members ↔ ∃ name member, (name, member) ∈ members ∧
      (entry = (path.join name, member.item) ∨ entry ∈ itemsAll (path.join name) member.inner) := by
  rw [itemsAll_eq]
  simp only [List.mem_flatMap, items_eq, List.mem_cons, Prod.exists]

theorem Stands.ne_nil {members : List (String × Member)} {names : List String} {member : Member}
    (stands : Stands members names member) : names ≠ [] := by
  cases stands <;> simp

theorem not_stands_nil {names : List String} {member : Member} : ¬ Stands [] names member := by
  intro stands
  cases stands with
  | here inside => cases inside
  | beneath inside _ => cases inside

theorem stands_cons_iff {members : List (String × Member)} {name : String} {names : List String}
    {member : Member} :
    Stands members (name :: names) member ↔ ∃ outer, (name, outer) ∈ members ∧
      ((names = [] ∧ member = outer) ∨ Stands outer.inner names member) := by
  constructor
  · intro stands
    cases stands with
    | here inside => exact ⟨member, inside, .inl ⟨rfl, rfl⟩⟩
    | @beneath _ _ _ outer _ inside below => exact ⟨outer, inside, .inr below⟩
  · rintro ⟨outer, inside, ⟨rfl, rfl⟩ | below⟩
    · exact .here inside
    · exact .beneath inside below

/-- The enumeration lists what stands in a group at the path of the group followed by the names. -/
theorem mem_itemsAll_iff {path place : Path} {item : Item} {members : List (String × Member)} :
    (place, item) ∈ itemsAll path members ↔
      ∃ names member, place = path.extend ⟨names⟩ ∧ item = member.item ∧ Stands members names member := by
  constructor
  · intro listed
    induction members using groupInduction generalizing path with
    | step members ih =>
        obtain ⟨name, member, inside, same | below⟩ := mem_itemsAll.mp listed
        · cases same
          exact ⟨[name], member, rfl, rfl, .here inside⟩
        · obtain ⟨names, target, rfl, sameItem, stands⟩ := ih (name, member) inside below
          exact ⟨name :: names, target, Path.extend_append path [name] names, sameItem,
            .beneath inside stands⟩
  · rintro ⟨names, member, rfl, rfl, stands⟩
    induction stands generalizing path with
    | here inside => exact mem_itemsAll.mpr ⟨_, _, inside, .inl rfl⟩
    | @beneath members name names outer member inside _ ih =>
        refine mem_itemsAll.mpr ⟨name, outer, inside, .inr ?_⟩
        rw [← show (path.join name).extend ⟨names⟩ = path.extend ⟨name :: names⟩ from
          Path.extend_append path [name] names]
        exact ih

/-- Everything listed in a group stands at a proper extension of the path of the group. -/
theorem exists_of_mem_itemsAll {path place : Path} {item : Item} {members : List (String × Member)}
    (listed : (place, item) ∈ itemsAll path members) :
    ∃ first rest, place = path.extend ⟨first :: rest⟩ := by
  obtain ⟨names, _, same, -, stands⟩ := mem_itemsAll_iff.mp listed
  obtain ⟨first, rest, rfl⟩ := List.exists_cons_of_ne_nil stands.ne_nil
  exact ⟨first, rest, same⟩

theorem get?_nil (member : Member) : member.get? [] = some member := by
  cases member <;> rfl

theorem get?_cons (name : String) (names : List String) (member : Member) :
    member.get? (name :: names) = find? name names member.inner := by
  cases member <;> rfl

theorem modify_nil (change : Member → Member) (member : Member) : member.modify change [] = change member := by
  cases member <;> rfl

theorem modify_cons_item (change : Member → Member) (name : String) (names : List String)
    (member : Member) : (member.modify change (name :: names)).item = member.item := by
  cases member <;> rfl

theorem modify_cons_inner (change : Member → Member) (name : String) (names : List String)
    (member : Member) :
    (member.modify change (name :: names)).inner = modifyAt change name names member.inner := by
  cases member <;> rfl

/-! ## Regular members -/

/-- What stands beneath a regular member is regular. -/
theorem Regular.inner {members : List (String × Member)} (regular : Regular members)
    {entry : String × Member} (inside : entry ∈ members) : Regular entry.2.inner := by
  obtain ⟨name, member⟩ := entry
  cases member with
  | field entry => exact ⟨List.nodup_nil, rfl, rfl⟩
  | fieldset group members => exact regular.fieldset inside

/-- A name leads to one member only. -/
theorem Regular.unique {members : List (String × Member)} (regular : Regular members) {name : String}
    {first second : Member} (inFirst : (name, first) ∈ members) (inSecond : (name, second) ∈ members) :
    first = second :=
  congrArg Prod.snd (List.inj_on_of_nodup_map regular.nodup inFirst inSecond rfl)

/-- What stands at some names stands at the last of them beneath what stands at the first. -/
theorem stands_append_iff {members : List (String × Member)} {front rest : List String} {member : Member}
    (someFront : front ≠ []) (someRest : rest ≠ []) :
    Stands members (front ++ rest) member ↔
      ∃ outer, Stands members front outer ∧ Stands outer.inner rest member := by
  induction front generalizing members with
  | nil => exact absurd rfl someFront
  | cons name front ih =>
      rw [List.cons_append, stands_cons_iff]
      cases front with
      | nil =>
          constructor
          · rintro ⟨outer, inside, ⟨none, -⟩ | below⟩
            · exact absurd none someRest
            · exact ⟨outer, .here inside, below⟩
          · rintro ⟨outer, stands, below⟩
            obtain ⟨_, inside, ⟨-, rfl⟩ | deeper⟩ := stands_cons_iff.mp stands
            · exact ⟨_, inside, .inr below⟩
            · exact absurd rfl deeper.ne_nil
      | cons second front =>
          simp only [List.cons_append, reduceCtorEq, false_and, false_or]
          constructor
          · rintro ⟨around, inside, below⟩
            obtain ⟨outer, stands, deeper⟩ := (ih (by simp)).mp below
            exact ⟨outer, .beneath inside stands, deeper⟩
          · rintro ⟨outer, stands, below⟩
            obtain ⟨around, inside, ⟨none, -⟩ | deeper⟩ := stands_cons_iff.mp stands
            · cases none
            · exact ⟨around, inside, (ih (by simp)).mpr ⟨outer, deeper, below⟩⟩

/-- Some names lead to one member only. -/
theorem Stands.unique {members : List (String × Member)} (regular : Regular members) {names : List String}
    {first second : Member} (stands : Stands members names first) (other : Stands members names second) :
    first = second := by
  induction stands with
  | @here members name first inside =>
      obtain ⟨_, found, ⟨-, rfl⟩ | deeper⟩ := stands_cons_iff.mp other
      · exact regular.unique inside found
      · exact absurd rfl deeper.ne_nil
  | @beneath members name names outer first inside below ih =>
      obtain ⟨_, found, ⟨rfl, -⟩ | deeper⟩ := stands_cons_iff.mp other
      · exact absurd rfl below.ne_nil
      · obtain rfl := regular.unique inside found
        exact ih (regular.inner inside) deeper

/-- Lookup finds what stands at the names, and nothing else. -/
theorem find?_eq_some_iff {members : List (String × Member)} (regular : Regular members)
    {name : String} {names : List String} {member : Member} :
    find? name names members = some member ↔ Stands members (name :: names) member := by
  induction members using groupInduction generalizing name names with
  | step members ih =>
      rw [find?_eq, Option.bind_eq_some_iff]
      constructor
      · rintro ⟨outer, found, there⟩
        have inside := Assoc.mem_of_get?_eq_some found
        cases names with
        | nil =>
            rw [get?_nil] at there
            cases there
            exact .here inside
        | cons second rest =>
            rw [get?_cons] at there
            exact .beneath inside ((ih _ inside (regular.inner inside)).mp there)
      · intro stands
        cases stands with
        | here inside =>
            exact ⟨member, (Assoc.get?_eq_some_iff regular.nodup).mpr inside, get?_nil member⟩
        | @beneath _ _ _ outer _ inside below =>
            refine ⟨outer, (Assoc.get?_eq_some_iff regular.nodup).mpr inside, ?_⟩
            cases names with
            | nil => exact absurd rfl below.ne_nil
            | cons second rest =>
                rw [get?_cons]
                exact (ih _ inside (regular.inner inside)).mpr below

/-- No two items are listed at one place. -/
theorem nodup_items {members : List (String × Member)} (regular : Regular members) (path : Path) :
    ((itemsAll path members).map Prod.fst).Nodup := by
  induction members using groupInduction generalizing path with
  | step members ih =>
      rw [itemsAll_eq, List.map_flatMap]
      refine Path.nodup_flatMap_extend path (fun entry => [entry.1]) ?_ (by simp) ?_ ?_
      · have fronts : (members.map fun entry => [entry.1]) = (Assoc.keys members).map fun name => [name] := by
          simp [Assoc.keys]
        rw [fronts]
        exact regular.nodup.map fun _ _ same => by simpa using same
      · intro entry inside
        rw [items_eq, List.map_cons, List.nodup_cons]
        refine ⟨fun listed => ?_, ih entry inside (regular.inner inside) _⟩
        obtain ⟨found, there, same⟩ := List.mem_map.mp listed
        obtain ⟨first, rest, place⟩ := exists_of_mem_itemsAll there
        exact Path.extend_cons_ne (same.symm.trans place)
      · intro entry _ place listed
        rw [items_eq, List.map_cons, List.mem_cons] at listed
        rcases listed with rfl | listed
        · exact ⟨[], by simp [Path.join, Path.extend]⟩
        · obtain ⟨found, there, rfl⟩ := List.mem_map.mp listed
          obtain ⟨first, rest, place⟩ := exists_of_mem_itemsAll there
          exact ⟨first :: rest, place.trans (Path.extend_append path [entry.1] (first :: rest))⟩

/-! ## Change at a place -/

/-- The items of a group with the item at one place changed. -/
def changeItem (place : Path) (change : Item → Item) (items : List (Path × Item)) : List (Path × Item) :=
  items.map fun entry => (entry.1, if entry.1 = place then change entry.2 else entry.2)

theorem changeItem_of_ne {place : Path} {change : Item → Item} {items : List (Path × Item)}
    (elsewhere : ∀ entry ∈ items, entry.1 ≠ place) : changeItem place change items = items := by
  refine (List.map_congr_left fun entry inside => ?_).trans (List.map_id items)
  rw [if_neg (elsewhere entry inside)]
  rfl

theorem changeItem_cons (place : Path) (change : Item → Item) (entry : Path × Item)
    (items : List (Path × Item)) :
    changeItem place change (entry :: items) =
      (entry.1, if entry.1 = place then change entry.2 else entry.2) :: changeItem place change items := rfl

section Change

variable {change : Member → Member} {onItem : Item → Item}
variable (changes : ∀ member, (change member).item = onItem member.item)
variable (keeps : ∀ member, (change member).inner = member.inner)
include changes keeps

/-- A member changes where the names lead if what stands beneath it does. -/
theorem items_modify {member : Member} {path : Path}
    (beneath : ∀ name names, itemsAll path (modifyAt change name names member.inner) =
      changeItem (path.extend ⟨name :: names⟩) onItem (itemsAll path member.inner))
    (names : List String) :
    (member.modify change names).items path =
      changeItem (path.extend ⟨names⟩) onItem (member.items path) := by
  cases names with
  | nil =>
      have elsewhere : ∀ entry ∈ itemsAll path member.inner, entry.1 ≠ path := by
        intro entry listed same
        obtain ⟨first, rest, place⟩ := exists_of_mem_itemsAll listed
        exact Path.extend_cons_ne (same.symm.trans place)
      rw [Path.extend_nil, modify_nil, items_eq, items_eq,
        changeItem_cons, changes, keeps, if_pos rfl, changeItem_of_ne elsewhere]
  | cons name names =>
      rw [items_eq, items_eq, changeItem_cons, modify_cons_item, modify_cons_inner, beneath,
        if_neg Path.extend_cons_ne]

/-- Changing the item of the member at some names changes the item that is listed there, and no other
one. -/
theorem itemsAll_modifyAt {members : List (String × Member)} (regular : Regular members) (path : Path)
    (name : String) (names : List String) :
    itemsAll path (modifyAt change name names members) =
      changeItem (path.extend ⟨name :: names⟩) onItem (itemsAll path members) := by
  induction members using groupInduction generalizing path name names with
  | step members ih =>
      have target : path.extend ⟨name :: names⟩ = (path.join name).extend ⟨names⟩ :=
        (Path.extend_append path [name] names).symm
      rw [modifyAt_eq, Assoc.modify_eq_map regular.nodup, itemsAll_eq, itemsAll_eq, List.flatMap_map,
        changeItem, List.map_flatMap, target]
      refine List.flatMap_congr ?_
      intro entry inside
      dsimp only
      by_cases same : entry.1 = name
      · subst same
        rw [if_pos rfl]
        exact items_modify changes keeps
          (fun name names => ih entry inside (regular.inner inside) _ name names) names
      · rw [if_neg same]
        refine (changeItem_of_ne fun listed there place => same ?_).symm
        obtain ⟨rest, lies⟩ : ∃ rest, listed.1 = path.extend ⟨entry.1 :: rest⟩ := by
          rw [items_eq, List.mem_cons] at there
          rcases there with rfl | there
          · exact ⟨[], rfl⟩
          · obtain ⟨first, rest, place⟩ := exists_of_mem_itemsAll there
            exact ⟨first :: rest, place.trans (Path.extend_append path [entry.1] (first :: rest))⟩
        rw [lies, ← target] at place
        exact (List.cons.inj (congrArg Path.segments (Path.extend_injective place))).1

end Change

/-- A view of the items lists some of their places in the same order. -/
theorem sublist_places {α : Type} (view : Item → Option α) (items : List (Path × Item)) :
    ((items.filterMap fun entry => (view entry.2).map (entry.1, ·)).map Prod.fst).Sublist
      (items.map Prod.fst) := by
  induction items with
  | nil => exact .slnil
  | cons entry rest ih =>
      cases seen : view entry.2 with
      | none => simpa [seen] using ih.cons entry.1
      | some value => simpa [seen] using ih.cons_cons entry.1

/-- What a change of one item does to a view of the items. -/
theorem filterMap_changeItem {α : Type} {view : Item → Option α} {change : Item → Item} (onView : α → α)
    (agree : ∀ item, view (change item) = (view item).map onView) (place : Path)
    (items : List (Path × Item)) :
    ((changeItem place change items).filterMap fun entry => (view entry.2).map (entry.1, ·)) =
      (items.filterMap fun entry => (view entry.2).map (entry.1, ·)).map fun entry =>
        (entry.1, if entry.1 = place then onView entry.2 else entry.2) := by
  rw [changeItem, List.filterMap_map, List.map_filterMap]
  refine List.filterMap_congr ?_
  intro entry _
  simp only [Function.comp_apply, Option.map_map]
  split
  · rename_i there
    rw [agree, Option.map_map]
    exact Option.map_congr fun value _ => by simp [there]
  · rename_i elsewhere
    exact Option.map_congr fun value _ => by simp [elsewhere]

end Member

/-! ## Fields and groups of a form -/

/-- The item with its field changed, if it is one. -/
def Item.mapField (change : Field → Field) : Item → Item
  | .field entry => .field (change entry)
  | .fieldset group => .fieldset group

/-- The item with its group changed, if it is a fieldset. -/
def Item.mapGroup (change : Group → Group) : Item → Item
  | .field entry => .field entry
  | .fieldset group => .fieldset (change group)

theorem Item.field?_eq_some_iff {item : Item} {entry : Field} :
    item.field? = some entry ↔ item = .field entry := by
  cases item <;> simp [field?]

theorem Item.group?_eq_some_iff {item : Item} {group : Group} :
    item.group? = some group ↔ item = .fieldset group := by
  cases item <;> simp [group?]

/-- The enumeration of fields lists what stands in a group. -/
theorem Member.mem_fields_iff {members : List (String × Member)} {path place : Path} {entry : Field} :
    (place, entry) ∈ Member.fields path members ↔
      ∃ names, place = path.extend ⟨names⟩ ∧ Member.Stands members names (.field entry) := by
  simp only [Member.fields, List.mem_filterMap, Option.map_eq_some_iff, Prod.mk.injEq,
    Prod.exists, Item.field?_eq_some_iff]
  constructor
  · rintro ⟨place, item, listed, _, rfl, rfl, rfl⟩
    obtain ⟨names, member, rfl, same, stands⟩ := Member.mem_itemsAll_iff.mp listed
    cases member with
    | field entry => cases same; exact ⟨names, rfl, stands⟩
    | fieldset group members => cases same
  · rintro ⟨names, rfl, stands⟩
    exact ⟨_, .field entry, Member.mem_itemsAll_iff.mpr ⟨names, _, rfl, rfl, stands⟩, _, rfl, rfl, rfl⟩

namespace Member

/-- A change of all fields and groups changes each item in its place. -/
theorem itemsAll_mapAll (onField : Field → Field) (onGroup : Group → Group) (path : Path)
    (members : List (String × Member)) :
    itemsAll path (mapAll onField onGroup members) =
      (itemsAll path members).map fun entry => (entry.1, (entry.2.mapField onField).mapGroup onGroup) := by
  induction members using groupInduction generalizing path with
  | step members ih =>
      rw [itemsAll_eq, itemsAll_eq, mapAll_eq, List.flatMap_map, List.map_flatMap]
      refine List.flatMap_congr fun entry inside => ?_
      have beneath := ih entry inside (path.join entry.1)
      obtain ⟨name, member⟩ := entry
      cases member with
      | field entry => rfl
      | fieldset group members => exact congrArg ((path.join name, Item.fieldset (onGroup group)) :: ·) beneath

/-- A change of all fields and groups changes each field in its place. -/
theorem fields_mapAll (onField : Field → Field) (onGroup : Group → Group) (path : Path)
    (members : List (String × Member)) :
    fields path (mapAll onField onGroup members) =
      (fields path members).map fun entry => (entry.1, onField entry.2) := by
  rw [fields, fields, itemsAll_mapAll, List.filterMap_map, List.map_filterMap]
  refine List.filterMap_congr fun entry _ => ?_
  obtain ⟨place, item⟩ := entry
  cases item with
  | field entry => rfl
  | fieldset group => rfl

/-- A change of all fields and groups changes each fieldset in its place. -/
theorem groups_mapAll (onField : Field → Field) (onGroup : Group → Group) (path : Path)
    (members : List (String × Member)) :
    groups path (mapAll onField onGroup members) =
      (groups path members).map fun entry => (entry.1, onGroup entry.2) := by
  rw [groups, groups, itemsAll_mapAll, List.filterMap_map, List.map_filterMap]
  refine List.filterMap_congr fun entry _ => ?_
  obtain ⟨place, item⟩ := entry
  cases item with
  | field entry => rfl
  | fieldset group => rfl

theorem get?_map (onField : Field → Field) (onGroup : Group → Group) (names : List String) (member : Member) :
    (member.map onField onGroup).get? names = (member.get? names).map (map onField onGroup) := by
  induction member using Member.induction generalizing names with
  | field entry =>
      cases names with
      | nil => rfl
      | cons name rest => rfl
  | fieldset group members ih =>
      cases names with
      | nil => rfl
      | cons name rest =>
          rw [map, get?, get?, find?_eq, find?_eq, mapAll_eq, Assoc.get?_map]
          cases found : Assoc.get? name members with
          | none => rfl
          | some inner => exact ih (name, inner) (Assoc.mem_of_get?_eq_some found) rest

/-- A change of all fields and groups changes the member that some names lead to. -/
theorem find?_mapAll (onField : Field → Field) (onGroup : Group → Group) (name : String) (names : List String)
    (members : List (String × Member)) :
    find? name names (mapAll onField onGroup members) =
      (find? name names members).map (map onField onGroup) := by
  rw [find?_eq, find?_eq, mapAll_eq, Assoc.get?_map]
  cases Assoc.get? name members with
  | none => rfl
  | some member => exact get?_map onField onGroup names member

end Member

namespace Form

theorem mem_fields_iff {form : Form} {path place : Path} {entry : Field} :
    (place, entry) ∈ form.fields path ↔
      ∃ names, place = path.extend ⟨names⟩ ∧ Member.Stands form.members names (.field entry) :=
  Member.mem_fields_iff

theorem mem_groups_iff {form : Form} {path place : Path} {group : Group} :
    (place, group) ∈ form.groups path ↔ (place = path ∧ group = form.group) ∨
      ∃ names members, place = path.extend ⟨names⟩ ∧
        Member.Stands form.members names (.fieldset group members) := by
  simp only [groups, List.mem_cons, Prod.mk.injEq, Member.groups, List.mem_filterMap,
    Option.map_eq_some_iff, Prod.exists, Item.group?_eq_some_iff]
  refine or_congr Iff.rfl ?_
  constructor
  · rintro ⟨place, item, listed, _, rfl, rfl, rfl⟩
    obtain ⟨names, member, rfl, same, stands⟩ := Member.mem_itemsAll_iff.mp listed
    cases member with
    | field entry => cases same
    | fieldset group members => cases same; exact ⟨names, members, rfl, stands⟩
  · rintro ⟨names, members, rfl, stands⟩
    exact ⟨_, .fieldset group, Member.mem_itemsAll_iff.mpr ⟨names, _, rfl, rfl, stands⟩, _, rfl, rfl, rfl⟩

/-- A group of a form lies at the path of the form or beneath it. -/
theorem exists_of_mem_groups {form : Form} {path : Path} {entry : Path × Group} (listed : entry ∈ form.groups path) :
    ∃ names, entry.1 = path.extend names := by
  rcases mem_groups_iff.mp listed with ⟨same, -⟩ | ⟨names, -, same, -⟩
  · exact ⟨.root, by rw [same, Path.extend_root]⟩
  · exact ⟨⟨names⟩, same⟩

variable {form : Form} (regular : Member.Regular form.members)

/-- Nothing in a form stands at the path of the form itself. -/
theorem ne_of_mem_items {path : Path} {entry : Path × Item}
    (listed : entry ∈ Member.itemsAll path form.members) : entry.1 ≠ path := by
  obtain ⟨first, rest, place⟩ := Member.exists_of_mem_itemsAll listed
  exact fun same => Path.extend_cons_ne (same.symm.trans place)

include regular

theorem field?_eq_some_iff {names : List String} {entry : Field} :
    form.field? names = some entry ↔ Member.Stands form.members names (.field entry) := by
  cases names with
  | nil =>
      refine iff_of_false ?_ fun stands => stands.ne_nil rfl
      simp [field?]
  | cons name rest =>
      rw [← Member.find?_eq_some_iff regular, field?]
      cases Member.find? name rest form.members with
      | none => simp
      | some member => cases member <;> simp

theorem group?_eq_some_iff {names : List String} {group : Group} :
    form.group? names = some group ↔ (names = [] ∧ group = form.group) ∨
      ∃ members, Member.Stands form.members names (.fieldset group members) := by
  cases names with
  | nil =>
      simp only [group?, Option.some.injEq, true_and]
      refine ⟨fun same => .inl same.symm, ?_⟩
      rintro (same | ⟨members, stands⟩)
      · exact same.symm
      · exact absurd rfl stands.ne_nil
  | cons name rest =>
      simp only [← Member.find?_eq_some_iff regular, group?, reduceCtorEq, false_and, false_or]
      cases Member.find? name rest form.members with
      | none => simp
      | some member => cases member <;> simp

/-- No two fields of a form stand at one place. -/
theorem nodup_fields (path : Path) : ((form.fields path).map Prod.fst).Nodup :=
  (Member.nodup_items regular path).sublist (Member.sublist_places Item.field? _)

/-- No two groups of a form stand at one place. -/
theorem nodup_groups (path : Path) : ((form.groups path).map Prod.fst).Nodup := by
  rw [groups, List.map_cons, List.nodup_cons]
  have sublist := Member.sublist_places Item.group? (Member.itemsAll path form.members)
  refine ⟨fun listed => ?_, (Member.nodup_items regular path).sublist sublist⟩
  obtain ⟨entry, there, same⟩ := List.mem_map.mp (sublist.subset listed)
  exact ne_of_mem_items there same

theorem items_modifyField (change : Field → Field) (path : Path) (names : List String) :
    Member.itemsAll path (form.modifyField change names).members =
      Member.changeItem (path.extend ⟨names⟩) (Item.mapField change)
        (Member.itemsAll path form.members) := by
  cases names with
  | nil => exact (Member.changeItem_of_ne fun entry listed => by
      rw [Path.extend_nil]
      exact ne_of_mem_items listed).symm
  | cons name rest =>
      refine Member.itemsAll_modifyAt ?_ ?_ regular path name rest
      · intro member
        cases member <;> rfl
      · intro member
        cases member <;> rfl

theorem items_modifyGroup (change : Group → Group) (path : Path) (names : List String) :
    Member.itemsAll path (form.modifyGroup change names).members =
      Member.changeItem (path.extend ⟨names⟩) (Item.mapGroup change)
        (Member.itemsAll path form.members) := by
  cases names with
  | nil => exact (Member.changeItem_of_ne fun entry listed => by
      rw [Path.extend_nil]
      exact ne_of_mem_items listed).symm
  | cons name rest =>
      refine Member.itemsAll_modifyAt ?_ ?_ regular path name rest
      · intro member
        cases member <;> rfl
      · intro member
        cases member <;> rfl

/-- The fields of a form after a change of the field at some names. -/
theorem fields_modifyField (change : Field → Field) (path : Path) (names : List String) :
    (form.modifyField change names).fields path = (form.fields path).map fun entry =>
      (entry.1, if entry.1 = path.extend ⟨names⟩ then change entry.2 else entry.2) := by
  rw [fields, Member.fields, items_modifyField regular]
  refine Member.filterMap_changeItem change (fun item => ?_) _ _
  cases item <;> rfl

/-- A change of a group leaves all fields as they are. -/
theorem fields_modifyGroup (change : Group → Group) (path : Path) (names : List String) :
    (form.modifyGroup change names).fields path = form.fields path := by
  rw [fields, Member.fields, items_modifyGroup regular]
  refine (Member.filterMap_changeItem id ?_ _ _).trans ?_
  · intro item
    cases item <;> rfl
  · simp [fields, Member.fields]

/-- A change of a field leaves all groups as they are. -/
theorem groups_modifyField (change : Field → Field) (path : Path) (names : List String) :
    (form.modifyField change names).groups path = form.groups path := by
  have same : (form.modifyField change names).group = form.group := by
    cases names <;> rfl
  rw [groups, groups, same, Member.groups, items_modifyField regular]
  refine congrArg _ ((Member.filterMap_changeItem id ?_ _ _).trans ?_)
  · intro item
    cases item <;> rfl
  · simp [Member.groups]

/-- The groups of a form after a change of the group at some names. -/
theorem groups_modifyGroup (change : Group → Group) (path : Path) (names : List String) :
    (form.modifyGroup change names).groups path = (form.groups path).map fun entry =>
      (entry.1, if entry.1 = path.extend ⟨names⟩ then change entry.2 else entry.2) := by
  have own : (form.modifyGroup change names).group =
      if path = path.extend ⟨names⟩ then change form.group else form.group := by
    cases names with
    | nil => rw [if_pos (Path.extend_nil path).symm, modifyGroup]
    | cons name rest => rw [if_neg Path.extend_cons_ne, modifyGroup]
  rw [groups, groups, List.map_cons, own, Member.groups, items_modifyGroup regular]
  refine congrArg _ (Member.filterMap_changeItem change (fun item => ?_) _ _)
  cases item <;> rfl

end Form

end Formwork
