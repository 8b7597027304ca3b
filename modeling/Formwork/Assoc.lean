/-!
# Maps in order of insertion

The members of a form, the fields of a JSON object and the entries of an error report
are maps whose order is part of what they say: it is the order of rendering and of
printing. They are lists of pairs. Setting a key that is present replaces its value in
place, and a new key goes to the end, so the order of the keys is the order in which
they were first set (`keys_set`), and a key that was set reads back (`get?_set`).
-/

set_option autoImplicit false

namespace Formwork.Assoc

variable {α : Type}

/-- The keys in order. -/
@[grind] def keys (entries : List (String × α)) : List String := entries.map Prod.fst

/-- The value at a key. -/
@[grind] def get? (key : String) : List (String × α) → Option α
  | [] => none
  | (name, value) :: rest => if name = key then some value else get? key rest

/-- Whether a key is present. -/
@[grind] def has (key : String) (entries : List (String × α)) : Bool := (get? key entries).isSome

/-- Replaces the value at a key in place, or adds the pair at the end. -/
@[grind] def set (key : String) (value : α) : List (String × α) → List (String × α)
  | [] => [(key, value)]
  | (name, old) :: rest => if name = key then (name, value) :: rest else (name, old) :: set key value rest

/-- The map that results from setting pairs one after the other. -/
@[grind] def ofList (pairs : List (String × α)) : List (String × α) :=
  pairs.foldl (fun entries (key, value) => set key value entries) []

/-- Applies a function to the value at a key, if it is present. -/
@[grind] def modify (key : String) (change : α → α) : List (String × α) → List (String × α)
  | [] => []
  | (name, value) :: rest =>
    if name = key then (name, change value) :: rest else (name, value) :: modify key change rest

/-- Adds messages to the list at a key, which is the empty list when the key is new. -/
@[grind] def addAll {β : Type} (key : String) (items : List β) :
    List (String × List β) → List (String × List β)
  | [] => [(key, items)]
  | (name, old) :: rest => if name = key then (name, old ++ items) :: rest else (name, old) :: addAll key items rest

/-- Whether no two of the listed texts are equal. -/
@[grind] def distinct : List String → Bool
  | [] => true
  | key :: rest => !rest.contains key && distinct rest

/-! ## Laws -/

theorem get?_set (entries : List (String × α)) (key other : String) (value : α) :
    get? other (set key value entries) = if other = key then some value else get? other entries := by
  induction entries with
  | nil =>
    by_cases same : other = key
    · simp [set, get?, same]
    · simp [set, get?, same, Ne.symm same]
  | cons entry rest ih =>
    obtain ⟨name, old⟩ := entry
    by_cases here : name = key
    · subst here
      by_cases same : other = name
      · simp [set, get?, same]
      · simp [set, get?, same, Ne.symm same]
    · by_cases there : name = other
      · subst there
        simp [set, get?, here]
      · simp [set, get?, here, there, ih]

theorem keys_set (entries : List (String × α)) (key : String) (value : α) :
    keys (set key value entries) = if has key entries then keys entries else keys entries ++ [key] := by
  induction entries with
  | nil => simp [set, keys, has, get?]
  | cons entry rest ih =>
    obtain ⟨name, old⟩ := entry
    by_cases here : name = key
    · simp [set, keys, has, get?, here]
    · simp only [keys, has] at ih
      by_cases found : (get? key rest).isSome = true
      · simp [set, keys, has, get?, here, ih, found]
      · simp [set, keys, has, get?, here, ih, found]

theorem mem_set {entries : List (String × α)} {key : String} {value : α} {entry : String × α}
    (inside : entry ∈ set key value entries) : entry = (key, value) ∨ entry ∈ entries := by
  induction entries with
  | nil => exact .inl (List.mem_singleton.mp inside)
  | cons head rest ih =>
    obtain ⟨name, old⟩ := head
    rw [set] at inside
    split at inside
    · rename_i here
      rcases List.mem_cons.mp inside with same | later
      · exact .inl (here ▸ same)
      · exact .inr (List.mem_cons_of_mem _ later)
    · rcases List.mem_cons.mp inside with same | later
      · exact .inr (same ▸ List.mem_cons_self)
      · exact (ih later).imp_right (List.mem_cons_of_mem _)

theorem get?_eq_none_iff {entries : List (String × α)} {key : String} :
    get? key entries = none ↔ key ∉ keys entries := by
  induction entries with
  | nil => simp [get?, keys]
  | cons entry rest ih =>
    obtain ⟨name, value⟩ := entry
    by_cases here : name = key
    · simp [get?, keys, here]
    · simp only [keys] at ih
      simp [get?, keys, here, Ne.symm here, ih]

theorem nodup_keys_set {entries : List (String × α)} (nodup : (keys entries).Nodup) (key : String) (value : α) :
    (keys (set key value entries)).Nodup := by
  rw [keys_set]
  split
  · exact nodup
  · rename_i absent
    rw [has, Bool.not_eq_true, Option.isSome_eq_false_iff, Option.isNone_iff_eq_none, get?_eq_none_iff] at absent
    refine List.nodup_append.mpr ⟨nodup, by simp, fun name inside other single same => absent ?_⟩
    rw [← List.mem_singleton.mp single, ← same]
    exact inside

/-- A change of every value changes the value that is found. -/
theorem get?_map {β : Type} (key : String) (change : α → β) (entries : List (String × α)) :
    get? key (entries.map fun entry => (entry.1, change entry.2)) = (get? key entries).map change := by
  induction entries with
  | nil => rfl
  | cons entry rest ih =>
    rw [List.map_cons, get?, get?, ih]
    split
    · rfl
    · rfl

theorem mem_of_get?_eq_some {entries : List (String × α)} {key : String} {value : α}
    (found : get? key entries = some value) : (key, value) ∈ entries := by
  induction entries with
  | nil => cases found
  | cons entry rest ih =>
    obtain ⟨name, first⟩ := entry
    by_cases here : name = key
    · simp only [get?, if_pos here, Option.some.injEq] at found
      simp [here, found]
    · simp only [get?, if_neg here] at found
      exact List.mem_cons_of_mem _ (ih found)

/-- In a map without repeated keys every entry is found. -/
theorem get?_eq_some_iff {entries : List (String × α)} (nodup : (keys entries).Nodup) {key : String}
    {value : α} : get? key entries = some value ↔ (key, value) ∈ entries := by
  refine ⟨mem_of_get?_eq_some, fun inside => ?_⟩
  induction entries with
  | nil => cases inside
  | cons entry rest ih =>
    obtain ⟨name, first⟩ := entry
    obtain ⟨notLater, restNodup⟩ := List.nodup_cons.mp nodup
    rcases List.mem_cons.mp inside with same | later
    · injection same with sameKey sameValue
      simp [get?, sameKey, sameValue]
    · have other : name ≠ key := by
        rintro rfl
        exact notLater (List.mem_map.mpr ⟨_, later, rfl⟩)
      simpa [get?, other] using ih restNodup later

@[simp]
theorem keys_modify (key : String) (change : α → α) (entries : List (String × α)) :
    keys (modify key change entries) = keys entries := by
  induction entries with
  | nil => rfl
  | cons entry rest ih =>
    obtain ⟨name, value⟩ := entry
    simp only [keys] at ih
    by_cases here : name = key <;> simp [modify, keys, here, ih]

theorem mem_modify {key : String} {change : α → α} {entries : List (String × α)}
    {entry : String × α} (inside : entry ∈ modify key change entries) :
    entry ∈ entries ∨ ∃ value, (key, value) ∈ entries ∧ entry = (key, change value) := by
  induction entries with
  | nil => cases inside
  | cons head rest ih =>
    obtain ⟨name, value⟩ := head
    by_cases here : name = key
    · simp only [modify, if_pos here, List.mem_cons] at inside
      rcases inside with same | later
      · exact .inr ⟨value, by simp [here], by simp [same, here]⟩
      · exact .inl (List.mem_cons_of_mem _ later)
    · simp only [modify, if_neg here, List.mem_cons] at inside
      rcases inside with same | later
      · exact .inl (by simp [same])
      · rcases ih later with old | ⟨found, there, same⟩
        · exact .inl (List.mem_cons_of_mem _ old)
        · exact .inr ⟨found, List.mem_cons_of_mem _ there, same⟩

/-- Two changes that agree on the value at a key change the map in the same way. -/
theorem modify_congr {key : String} {first second : α → α} {entries : List (String × α)}
    (agree : ∀ value, get? key entries = some value → first value = second value) :
    modify key first entries = modify key second entries := by
  induction entries with
  | nil => rfl
  | cons entry rest ih =>
    obtain ⟨name, value⟩ := entry
    by_cases here : name = key
    · simp [modify, here, agree value (by simp [get?, here])]
    · have later : ∀ value, get? key rest = some value → first value = second value :=
        fun value found => agree value (by simpa [get?, here] using found)
      simp [modify, here, ih later]

/-- What a change does not affect is the same afterwards. -/
theorem map_modify {β : Type} {change : α → α} {image : String × α → β}
    {entries : List (String × α)}
    (same : ∀ entry ∈ entries, image (entry.1, change entry.2) = image entry) (key : String) :
    (modify key change entries).map image = entries.map image := by
  induction entries with
  | nil => rfl
  | cons entry rest ih =>
    obtain ⟨sameHead, sameRest⟩ := List.forall_mem_cons.mp same
    rw [modify]
    split
    · rw [List.map_cons, List.map_cons, sameHead]
    · rw [List.map_cons, List.map_cons, ih sameRest]

/-- A change of the value at a key that goes with a change of every value may be made afterwards. -/
theorem map_modify_comm {β : Type} {change : α → α} {edit : β → β} {image : α → β} {entries : List (String × α)}
    (agree : ∀ entry ∈ entries, image (change entry.2) = edit (image entry.2)) (key : String) :
    (modify key change entries).map (fun entry => (entry.1, image entry.2)) =
      modify key edit (entries.map fun entry => (entry.1, image entry.2)) := by
  induction entries with
  | nil => rfl
  | cons entry rest ih =>
    obtain ⟨agreeHead, agreeRest⟩ := List.forall_mem_cons.mp agree
    rw [modify, List.map_cons, modify]
    split
    · rw [List.map_cons, agreeHead]
    · rw [List.map_cons, ih agreeRest]

/-- Two changes of the value at one key are one change. -/
theorem modify_modify (key : String) (first second : α → α) (entries : List (String × α)) :
    modify key first (modify key second entries) = modify key (fun value => first (second value)) entries := by
  induction entries with
  | nil => rfl
  | cons entry rest ih =>
    obtain ⟨name, value⟩ := entry
    by_cases here : name = key
    · simp [modify, here]
    · simp [modify, here, ih]

/-- Two changes can be made in either order, unless they are made at one key and do not go with each other. -/
theorem modify_comm {key other : String} {first second : α → α} {entries : List (String × α)}
    (agree : key = other → ∀ entry ∈ entries, first (second entry.2) = second (first entry.2)) :
    modify key first (modify other second entries) = modify other second (modify key first entries) := by
  induction entries with
  | nil => rfl
  | cons entry rest ih =>
    have later := ih fun same entry inside => agree same entry (List.mem_cons_of_mem _ inside)
    obtain ⟨name, value⟩ := entry
    by_cases here : name = key
    · by_cases there : name = other
      · have own := agree (here.symm.trans there) _ List.mem_cons_self
        simp only [modify, if_pos here, if_pos there, own]
      · simp only [modify, if_pos here, if_neg there]
    · by_cases there : name = other
      · simp only [modify, if_neg here, if_pos there]
      · simp only [modify, if_neg here, if_neg there, later]

/-- A change that no value notices changes nothing. -/
theorem modify_eq_self {change : α → α} {entries : List (String × α)}
    (same : ∀ entry ∈ entries, change entry.2 = entry.2) (key : String) : modify key change entries = entries := by
  have unchanged := @map_modify _ _ change id entries (fun entry inside => Prod.ext rfl (same entry inside)) key
  rwa [List.map_id, List.map_id] at unchanged

/-- A change that leaves the value at its key as it is changes nothing. -/
theorem modify_eq_self_of_get? {key : String} {change : α → α} {entries : List (String × α)}
    (same : ∀ value, get? key entries = some value → change value = value) : modify key change entries = entries :=
  calc modify key change entries
      = modify key id entries := modify_congr same
    _ = entries := modify_eq_self (fun _ _ => rfl) key

/-- In a map without repeated keys a change at a key is a change of every entry with that key. -/
theorem modify_eq_map {entries : List (String × α)} (nodup : (keys entries).Nodup) (key : String)
    (change : α → α) : modify key change entries =
      entries.map fun entry => (entry.1, if entry.1 = key then change entry.2 else entry.2) := by
  induction entries with
  | nil => rfl
  | cons entry rest ih =>
    obtain ⟨name, value⟩ := entry
    obtain ⟨notLater, restNodup⟩ := List.nodup_cons.mp nodup
    by_cases here : name = key
    · have untouched : (rest.map fun entry =>
          (entry.1, if entry.1 = key then change entry.2 else entry.2)) = rest := by
        refine (List.map_congr_left fun entry inside => ?_).trans (List.map_id rest)
        have other : entry.1 ≠ key := by
          intro same
          exact notLater (List.mem_map.mpr ⟨_, inside, same.trans here.symm⟩)
        simp [other]
      simp [modify, here, untouched]
    · simp [modify, here, ih restNodup]

/-- A change of a value that is there leaves the entries in front of it and behind it as they are. -/
theorem exists_modify_eq {key : String} {value : α} {entries : List (String × α)}
    (found : get? key entries = some value) :
    ∃ front back, ∀ change : α → α, modify key change entries = front ++ (key, change value) :: back := by
  induction entries with
  | nil => cases found
  | cons entry rest ih =>
      obtain ⟨name, first⟩ := entry
      by_cases here : name = key
      · subst here
        obtain rfl : first = value := by simpa [get?] using found
        exact ⟨[], rest, fun change => by simp [modify]⟩
      · obtain ⟨front, back, split⟩ := ih (by simpa [get?, here] using found)
        exact ⟨(name, first) :: front, back, fun change => by simp [modify, here, split change]⟩

/-- Adding messages at a key sets the messages there to the old ones and the new ones. -/
theorem addAll_eq_set {β : Type} (key : String) (items : List β) (entries : List (String × List β)) :
    addAll key items entries = set key ((get? key entries).getD [] ++ items) entries := by
  induction entries with
  | nil => rfl
  | cons entry rest ih =>
      obtain ⟨name, old⟩ := entry
      by_cases here : name = key
      · simp only [addAll, set, get?, if_pos here, Option.getD_some]
      · simp only [addAll, set, get?, if_neg here, ih]

theorem addAll_ne_nil {β : Type} (key : String) (items : List β) (entries : List (String × List β)) :
    addAll key items entries ≠ [] := by
  cases entries with
  | nil => exact List.cons_ne_nil _ _
  | cons entry rest =>
    rw [addAll]
    split
    · exact List.cons_ne_nil _ _
    · exact List.cons_ne_nil _ _

/-- Messages of a new key go to the end. -/
theorem addAll_of_not_mem {β : Type} {key : String} (items : List β) {entries : List (String × List β)}
    (absent : key ∉ keys entries) : addAll key items entries = entries ++ [(key, items)] := by
  induction entries with
  | nil => rfl
  | cons entry rest ih =>
    rw [keys, List.map_cons, List.mem_cons, not_or] at absent
    rw [addAll, if_neg (Ne.symm absent.1), ih absent.2, List.cons_append]

theorem distinct_eq_true_iff {names : List String} : distinct names = true ↔ names.Nodup := by
  induction names with
  | nil => simp [distinct]
  | cons name rest ih => simp [distinct, ih]

end Formwork.Assoc
