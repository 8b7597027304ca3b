import Formwork.Proofs.Node.Payload
import Formwork.Proofs.Reports
import Formwork.Proofs.Spellings

/-!
# The messages in the body of a response

The texts in a JSON value are its leaves (`Json.leaves`), in the order in which they are written. A leaf
stands at a location and is named by the keys and indices on the way to it, except that an item of a list
that holds nothing but texts is named like the list (`Json.Location.names`). If no object has a key twice
there is one leaf for each location at which a text stands (`Json.mem_leaves_iff`,
`Json.nodup_locations`).

The messages of a response are these leaves, each under its names joined with dots, no more and no less;
messages with the same key stay in order (`Response.Flattens`). A response that is made from messages
carries exactly these messages (`Response.messages_lossless`).
-/

set_option autoImplicit false

namespace Formwork

open Formwork.Text

namespace Json

/-! ## Texts in a value -/

/-- A text in a JSON value. -/
structure Leaf where
  /-- Where the text stands. -/
  location : Location
  /-- The keys and indices that name the text, outermost first. -/
  names : List String
  /-- What the text says. -/
  content : String
deriving DecidableEq, Repr

/-- A leaf of a part as a leaf of the value around it. -/
def Leaf.below (step : Step) (names : List String) (leaf : Leaf) : Leaf :=
  ⟨step :: leaf.location, names ++ leaf.names, leaf.content⟩

/-- Whether a list holds nothing but texts. -/
def isPlain (items : List Json) : Bool := items.all fun item => item.text?.isSome

/-- What names an item of a list: its index, or nothing if the list holds nothing but texts. -/
def itemNames (plain : Bool) (index : Nat) : List String := if plain then [] else [indexText index]

/-- The part of a value that one step leads to. -/
def next? : Step → Json → Option Json
  | .key name, .object fields => Assoc.get? name fields
  | .item index, .list items => items[index]?
  | _, _ => none

/-- What names a part that one step leads to. -/
def Step.names : Step → Json → List String
  | .item index, .list items => itemNames (isPlain items) index
  | step, _ => [step.text]

/-- The keys and indices that name the place at a location of a value. -/
def Location.names : Location → Json → List String
  | [], _ => []
  | step :: rest, value => step.names value ++ ((value.next? step).map (Location.names rest)).getD []

mutual
/-- The texts in a value, in the order in which they are written. -/
def leaves : Json → List Leaf
  | .text content => [⟨[], [], content⟩]
  | .list items => itemLeaves (isPlain items) 0 items
  | .object fields => fieldLeaves fields
  | _ => []

/-- The texts in the items of a list, the first of which has the given index. -/
def itemLeaves (plain : Bool) (index : Nat) : List Json → List Leaf
  | [] => []
  | item :: rest =>
    item.leaves.map (Leaf.below (.item index) (itemNames plain index)) ++ itemLeaves plain (index + 1) rest

/-- The texts in the fields of an object. -/
def fieldLeaves : List (String × Json) → List Leaf
  | [] => []
  | (key, value) :: rest => value.leaves.map (Leaf.below (.key key) [key]) ++ fieldLeaves rest
end

/-- The key of a leaf in a report: its names joined with dots. Empty names in front are left out. -/
def Leaf.key (leaf : Leaf) : String := String.intercalate "." (leaf.names.dropWhile String.isEmpty)

/-- No object has a key twice. -/
def KeyedOnce : Json → Prop := Throughout (fun _ => True) fun fields => (Assoc.keys fields).Nodup

theorem itemLeaves_eq (plain : Bool) (index : Nat) (items : List Json) :
    itemLeaves plain index items = (items.zipIdx index).flatMap fun entry =>
      entry.1.leaves.map (Leaf.below (.item entry.2) (itemNames plain entry.2)) := by
  induction items generalizing index with
  | nil => rw [itemLeaves, List.zipIdx_nil, List.flatMap_nil]
  | cons item rest ih => rw [itemLeaves, List.zipIdx_cons, List.flatMap_cons, ih]

theorem fieldLeaves_eq (fields : List (String × Json)) :
    fieldLeaves fields = fields.flatMap fun entry => entry.2.leaves.map (Leaf.below (.key entry.1) [entry.1]) := by
  induction fields with
  | nil => rw [fieldLeaves, List.flatMap_nil]
  | cons entry rest ih => rw [fieldLeaves, ih, List.flatMap_cons]

theorem at?_cons (step : Step) (rest : Location) (value : Json) :
    value.at? (step :: rest) = (value.next? step).bind (at? rest) := by
  cases step <;> cases value <;> rfl

theorem KeyedOnce.next {value part : Json} {step : Step} (once : value.KeyedOnce)
    (found : value.next? step = some part) : part.KeyedOnce := by
  match step, value with
  | .key name, .object fields =>
      have inside : (name, part) ∈ fields := Assoc.mem_of_get?_eq_some found
      exact (throughout_object_iff.mp once).2 _ inside
  | .item index, .list items =>
      have inside : part ∈ items := List.mem_of_getElem? found
      exact (throughout_list_iff.mp once).2 _ inside

/-- Only a text is a leaf of itself. -/
theorem mem_leaves_nil_iff {value : Json} {names : List String} {content : String} :
    ⟨[], names, content⟩ ∈ value.leaves ↔ value = .text content ∧ names = [] := by
  cases value with
  | null | bool | number => simp [leaves]
  | text => simp [leaves, and_comm, eq_comm]
  | list items => simp [leaves, itemLeaves_eq, Leaf.below]
  | object fields => simp [leaves, fieldLeaves_eq, Leaf.below]

/-- Every other leaf is one of the part that its first step leads to. -/
theorem mem_leaves_cons_iff {value : Json} (once : value.KeyedOnce) {step : Step} {rest : Location}
    {names : List String} {content : String} :
    ⟨step :: rest, names, content⟩ ∈ value.leaves ↔
      ∃ part, value.next? step = some part ∧
        ∃ further, ⟨rest, further, content⟩ ∈ part.leaves ∧ step.names value ++ further = names := by
  cases value with
  | null | bool | number | text => cases step <;> simp [leaves, next?]
  | list items =>
      rw [leaves, itemLeaves_eq, List.mem_flatMap]
      constructor
      · rintro ⟨⟨item, index⟩, inside, among⟩
        obtain ⟨⟨location, further, text⟩, inner, same⟩ := List.mem_map.mp among
        cases same
        exact ⟨item, List.mem_zipIdx_iff_getElem?.mp inside, further, inner, rfl⟩
      · rintro ⟨item, found, further, among, rfl⟩
        match step with
        | .item index =>
            exact ⟨(item, index), List.mem_zipIdx_iff_getElem?.mpr found, List.mem_map_of_mem among⟩
  | object fields =>
      obtain ⟨distinct, -⟩ := throughout_object_iff.mp once
      rw [leaves, fieldLeaves_eq, List.mem_flatMap]
      constructor
      · rintro ⟨⟨name, field⟩, inside, among⟩
        obtain ⟨⟨location, further, text⟩, inner, same⟩ := List.mem_map.mp among
        cases same
        exact ⟨field, (Assoc.get?_eq_some_iff distinct).mpr inside, further, inner, rfl⟩
      · rintro ⟨field, found, further, among, rfl⟩
        match step with
        | .key name =>
            exact ⟨(name, field), Assoc.mem_of_get?_eq_some found, List.mem_map_of_mem among⟩

/-- If no object has a key twice, a value has a leaf exactly where a text stands, with the names of its
location. -/
theorem mem_leaves_iff {value : Json} (once : value.KeyedOnce) {location : Location} {names : List String}
    {content : String} :
    ⟨location, names, content⟩ ∈ value.leaves ↔
      value.at? location = some (.text content) ∧ location.names value = names := by
  -- A leaf of a value loses its first step as a leaf of the part, so the induction is on the location.
  induction location generalizing value names with
  | nil => rw [mem_leaves_nil_iff, at?, Option.some.injEq, Location.names, @eq_comm _ names]
  | cons step rest ih =>
      rw [mem_leaves_cons_iff once, at?_cons, Location.names]
      constructor
      · rintro ⟨part, found, further, among, rfl⟩
        obtain ⟨stands, rfl⟩ := (ih (once.next found)).mp among
        rw [found]
        exact ⟨stands, rfl⟩
      · rintro ⟨stands, rfl⟩
        obtain ⟨part, found, stands⟩ := Option.bind_eq_some_iff.mp stands
        have among := (ih (once.next found)).mpr ⟨stands, rfl⟩
        rw [found]
        exact ⟨part, rfl, _, among, rfl⟩

/-- Leaves beneath different steps stand at different locations. -/
theorem nodup_locations_flatMap {α : Type} {entries : List α} {step : α → Step} {part : α → Json}
    (names : α → List String) (apart : (entries.map step).Nodup)
    (inner : ∀ entry ∈ entries, ((part entry).leaves.map Leaf.location).Nodup) :
    ((entries.flatMap fun entry => (part entry).leaves.map (Leaf.below (step entry) (names entry))).map
      Leaf.location).Nodup := by
  have further (entry : α) :
      ((part entry).leaves.map (Leaf.below (step entry) (names entry))).map Leaf.location =
        ((part entry).leaves.map Leaf.location).map (step entry :: ·) := by
    rw [List.map_map, List.map_map]
    rfl
  simp only [List.map_flatMap, further]
  rw [List.nodup_flatMap]
  constructor
  · intro entry inside
    exact (inner entry inside).map List.cons_injective
  · refine (List.pairwise_map.mp apart).imp fun {first second} different => ?_
    intro location among also
    obtain ⟨_, -, rfl⟩ := List.mem_map.mp among
    obtain ⟨_, -, same⟩ := List.mem_map.mp also
    exact different (List.cons.inj same).1.symm

/-- If no object has a key twice, no two leaves stand at the same location. -/
theorem nodup_locations {value : Json} (once : value.KeyedOnce) : (value.leaves.map Leaf.location).Nodup := by
  induction value using Json.induction with
  | null | bool | number => exact List.nodup_nil
  | text => exact List.nodup_singleton _
  | list items ih =>
      obtain ⟨-, inner⟩ := throughout_list_iff.mp once
      rw [leaves, itemLeaves_eq]
      refine nodup_locations_flatMap _ ?_ fun entry inside => ?_
      · have indices :
            items.zipIdx.map (fun entry => Step.item entry.2) = (List.range' 0 items.length).map Step.item := by
          rw [← List.zipIdx_map_snd, List.map_map]
          rfl
        rw [indices]
        exact (List.nodup_range' 1).map fun _ _ same => Step.item.inj same
      · have inside := List.mem_of_getElem? (List.mem_zipIdx_iff_getElem?.mp inside)
        exact ih _ inside (inner _ inside)
  | object fields ih =>
      obtain ⟨distinct, inner⟩ := throughout_object_iff.mp once
      rw [leaves, fieldLeaves_eq]
      refine nodup_locations_flatMap _ ?_ fun entry inside => ih entry inside (inner entry inside)
      have keys : fields.map (fun entry => Step.key entry.1) = (Assoc.keys fields).map Step.key := by
        rw [Assoc.keys, List.map_map]
        rfl
      rw [keys]
      exact distinct.map fun _ _ same => Step.key.inj same

end Json

namespace Response

/-! ## Messages one by one -/

/-- Each message with its key. -/
def singly (messages : Messages) : List (String × String) :=
  messages.flatMap fun entry => entry.2.map (entry.1, ·)

theorem singly_append (first second : Messages) : singly (first ++ second) = singly first ++ singly second :=
  List.flatMap_append

theorem singly_singleton (entry : String × List String) : singly [entry] = entry.2.map (entry.1, ·) :=
  List.flatMap_singleton _ _

theorem singly_addAll (key : String) (contents : List String) (messages : Messages) :
    (singly (Assoc.addAll key contents messages)).Perm (singly messages ++ contents.map (key, ·)) := by
  induction messages with
  | nil => exact .of_eq (List.append_nil _)
  | cons entry rest ih =>
      obtain ⟨name, old⟩ := entry
      rw [Assoc.addAll]
      split
      · rename_i here
        subst here
        simp only [singly, List.flatMap_cons, List.map_append, List.append_assoc]
        exact List.perm_append_comm.append_left _
      · simp only [singly, List.flatMap_cons, List.append_assoc]
        exact ih.append_left _

/-- Bringing messages together keeps each of them, as often as it occurs. -/
theorem singly_gathered (messages : Messages) : (singly (gathered messages)).Perm (singly messages) := by
  induction messages using List.reverseRecOn with
  | nil => rfl
  | append_singleton front entry ih =>
      rw [gathered_concat, singly_append, singly_singleton]
      exact (singly_addAll _ _ _).trans (ih.append_right _)

/-- Messages with the same key are brought together in order. -/
theorem get?_gathered (key : String) (messages : Messages) :
    (Assoc.get? key (gathered messages)).getD [] =
      ((singly messages).filter fun message => message.1 = key).map Prod.snd := by
  induction messages using List.reverseRecOn with
  | nil => rfl
  | append_singleton front entry ih =>
      rw [gathered_concat, Assoc.addAll_eq_set, Assoc.get?_set, singly_append, List.filter_append,
        List.map_append, ← ih, singly_singleton, List.filter_map]
      split
      · rename_i same
        subst same
        simp [Function.comp_def]
      · rename_i different
        simp [Function.comp_def, Ne.symm different]

theorem nodup_keys_gathered (messages : Messages) : (Assoc.keys (gathered messages)).Nodup := by
  induction messages using List.reverseRecOn with
  | nil => exact List.nodup_nil
  | append_singleton front entry ih =>
      rw [gathered_concat, Assoc.addAll_eq_set]
      exact Assoc.nodup_keys_set ih _ _

/-! ## The messages of a body -/

theorem joinKey_of_ne {path : String} (inside : path ≠ "") (name : String) :
    joinKey path name = path ++ "." ++ name := by
  rw [joinKey, if_neg (mt String.isEmpty_iff.mp inside)]

/-- Behind a path that is not empty every name counts, empty or not. -/
theorem foldl_joinKey_of_ne {path : String} (inside : path ≠ "") (names : List String) :
    names.foldl joinKey path = String.intercalate "." (path :: names) := by
  induction names generalizing path with
  | nil => rw [List.foldl_nil, String.intercalate_singleton]
  | cons name rest ih =>
      have longer : path ++ "." ++ name ≠ "" := by simp
      rw [List.foldl_cons, joinKey_of_ne inside, ih longer, String.intercalate_cons_cons]
      cases rest with
      | nil => rw [String.intercalate_singleton, String.intercalate_singleton]
      | cons next further =>
          rw [String.intercalate_cons_cons, String.intercalate_cons_cons]
          simp only [String.append_assoc]

/-- Names that are joined one after the other are joined with dots, without the empty ones in front. -/
theorem foldl_joinKey (names : List String) :
    names.foldl joinKey "" = String.intercalate "." (names.dropWhile String.isEmpty) := by
  induction names with
  | nil => rfl
  | cons name rest ih =>
      have first : joinKey "" name = name := rfl
      rw [List.foldl_cons, first, List.dropWhile_cons]
      split
      · rename_i empty
        rw [String.isEmpty_iff.mp empty, ih]
      · rename_i inside
        exact foldl_joinKey_of_ne (mt String.isEmpty_iff.mpr inside) rest

/-- A list is read as messages exactly if it holds nothing but texts. -/
theorem texts?_eq_some_iff {items : List Json} {contents : List String} :
    texts? items = some contents ↔ items = contents.map Json.text := by
  induction items generalizing contents with
  | nil => cases contents <;> simp [texts?]
  | cons item rest ih =>
      cases item with
      | text content =>
          rw [texts?, Option.map_eq_some_iff]
          constructor
          · rintro ⟨further, found, rfl⟩
            rw [ih.mp found, List.map_cons]
          · intro same
            cases contents with
            | nil => cases same
            | cons head tail =>
                obtain ⟨heads, tails⟩ := List.cons.inj same
                obtain rfl := Json.text.inj heads
                exact ⟨tail, ih.mpr tails, rfl⟩
      | _ => cases contents <;> simp [texts?]

theorem isPlain_eq_isSome {items : List Json} : Json.isPlain items = (texts? items).isSome := by
  induction items with
  | nil => rfl
  | cons item rest ih =>
      rw [Json.isPlain, List.all_cons, ← Json.isPlain, ih]
      cases item <;> simp [texts?, Json.text?]

/-- A leaf beneath a dotted path as a message. -/
def reported (path : String) (leaf : Json.Leaf) : String × String :=
  (leaf.names.foldl joinKey path, leaf.content)

theorem map_reported_below (path : String) (step : Json.Step) (names : List String) (leaves : List Json.Leaf) :
    (leaves.map (Json.Leaf.below step names)).map (reported path) =
      leaves.map (reported (names.foldl joinKey path)) := by
  rw [List.map_map]
  refine List.map_congr_left fun leaf _ => ?_
  exact congrArg (·, leaf.content) List.foldl_append

/-- The texts of a list that holds nothing else are all reported under the path of the list. -/
theorem map_reported_texts (path : String) (index : Nat) (contents : List String) :
    (Json.itemLeaves true index (contents.map Json.text)).map (reported path) = contents.map (path, ·) := by
  induction contents generalizing index with
  | nil => rfl
  | cons content rest ih =>
      rw [List.map_cons, Json.itemLeaves, List.map_append, ih]
      rfl

mutual
/-- Each message in a value at a dotted path is one of its leaves, in order. -/
theorem singly_messagesAt (path : String) :
    ∀ body : Json, singly (messagesAt path body) = body.leaves.map (reported path)
  | .null => rfl
  | .bool _ => rfl
  | .number _ => rfl
  | .text _ => rfl
  | .list items => by
      rw [messagesAt, Json.leaves, isPlain_eq_isSome]
      -- A list of texts is one entry, with all its leaves; any other list is read item by item.
      cases read : texts? items with
      | some contents =>
          obtain rfl := texts?_eq_some_iff.mp read
          exact (List.append_nil _).trans (map_reported_texts path 0 contents).symm
      | none => exact singly_itemMessages path 0 items
  | .object fields => by
      rw [messagesAt, Json.leaves]
      exact singly_fieldMessages path fields

theorem singly_itemMessages (path : String) (index : Nat) : ∀ items : List Json,
    singly (itemMessages path index items) = (Json.itemLeaves false index items).map (reported path)
  | [] => rfl
  | item :: rest => by
      rw [itemMessages, Json.itemLeaves, singly_append, List.map_append, map_reported_below,
        singly_messagesAt (joinKey path (indexText index)) item, singly_itemMessages path (index + 1) rest]
      rfl

theorem singly_fieldMessages (path : String) : ∀ fields : List (String × Json),
    singly (fieldMessages path fields) = (Json.fieldLeaves fields).map (reported path)
  | [] => rfl
  | (key, value) :: rest => by
      rw [fieldMessages, Json.fieldLeaves, singly_append, List.map_append, map_reported_below,
        singly_messagesAt (joinKey path key) value, singly_fieldMessages path rest]
      rfl
end

/-- Each message of a body is one of its leaves, under the key of the leaf, in order. -/
theorem singly_messagesAt_root (body : Json) :
    singly (messagesAt "" body) = body.leaves.map fun leaf => (leaf.key, leaf.content) := by
  rw [singly_messagesAt]
  exact List.map_congr_left fun leaf _ => congrArg (·, leaf.content) (foldl_joinKey leaf.names)

/-- Messages are exactly the texts in a JSON value. -/
structure Flattens (body : Json) (messages : Messages) : Prop where
  /-- No key has two entries. -/
  apart : (Assoc.keys messages).Nodup
  /-- The messages are the leaves, as often as they occur, each under its key. -/
  exactly : (singly messages).Perm (body.leaves.map fun leaf => (leaf.key, leaf.content))
  /-- Messages with the same key are in the order in which they are written. -/
  inOrder : ∀ key, (Assoc.get? key messages).getD [] =
    (body.leaves.filter fun leaf => leaf.key = key).map Json.Leaf.content
  /-- A leaf stands wherever a text stands, under the names of its location. -/
  placed : body.KeyedOnce → ∀ location names content, ⟨location, names, content⟩ ∈ body.leaves ↔
    body.at? location = some (.text content) ∧ location.names body = names
  /-- No two leaves stand at the same location. -/
  once : body.KeyedOnce → (body.leaves.map Json.Leaf.location).Nodup

theorem flattens_messages (response : Response) : Flattens response.body response.messages where
  apart := nodup_keys_gathered _
  exactly := singly_messagesAt_root response.body ▸ singly_gathered _
  inOrder key := by
    rw [messages, get?_gathered, singly_messagesAt_root, List.filter_map, List.map_map]
    rfl
  placed keyedOnce _ _ _ := Json.mem_leaves_iff keyedOnce
  once := Json.nodup_locations

/-! ## Messages of a response that is made from messages -/

theorem messagesAt_texts (path : String) (contents : List String) :
    messagesAt path (Json.texts contents) = [(path, contents)] := by
  rw [Json.texts, messagesAt, texts?_eq_some_iff.mpr rfl]

theorem fieldMessages_texts (messages : Messages) :
    fieldMessages "" (messages.map fun entry => (entry.1, Json.texts entry.2)) = messages := by
  induction messages with
  | nil => rfl
  | cons entry rest ih =>
      rw [List.map_cons, fieldMessages, messagesAt_texts, ih]
      rfl

/-- The messages of a rejection are the messages that it was made from, in order, with those keys that
have none. -/
theorem messages_unprocessable_of_nodup {messages : Messages} (apart : (Assoc.keys messages).Nodup) :
    (unprocessable messages).messages = messages :=
  calc (unprocessable messages).messages
      = gathered (fieldMessages "" (messages.map fun entry => (entry.1, Json.texts entry.2))) := rfl
    _ = gathered messages := by rw [fieldMessages_texts]
    _ = messages := gathered_of_nodup apart

/-- Flattening the body of a response neither loses nor invents a message, and a response that is made from
messages gives back these messages. -/
theorem messages_lossless :
    (∀ response : Response, Flattens response.body response.messages) ∧
      ∀ messages : Messages, (Assoc.keys messages).Nodup → (unprocessable messages).messages = messages :=
  ⟨flattens_messages, fun _ => messages_unprocessable_of_nodup⟩

/-- Four texts whose places have the same key, one of them beneath an empty key, and a list that holds more than
texts. -/
def colliding : Json :=
  .object [
    ("form", .object [("name", .text "first")]),
    ("form.name", .texts ["second", "third"]),
    ("", .object [("form.name", .text "fourth")]),
    ("rows", .list [.null, .text "fifth"])]

theorem colliding_keyedOnce : colliding.KeyedOnce := by
  simp [colliding, Json.KeyedOnce, Json.throughout_object_iff, Json.throughout_list_iff, Json.texts, Assoc.keys,
    Json.Throughout.text, Json.Throughout.null]

theorem messages_lossless_colliding :
    (Response.mk 422 colliding).messages =
        [("form.name", ["first", "second", "third", "fourth"]), ("rows.1", ["fifth"])] ∧
      Flattens colliding (Response.mk 422 colliding).messages ∧
      colliding.KeyedOnce ∧ (colliding.leaves.map Json.Leaf.location).Nodup ∧
      ⟨[.key "rows", .item 1], ["rows", "1"], "fifth"⟩ ∈ colliding.leaves ∧
      (Assoc.keys [("rows", []), ("form.name", ["first", "second"])]).Nodup ∧
      (unprocessable [("rows", []), ("form.name", ["first", "second"])]).messages =
        [("rows", []), ("form.name", ["first", "second"])] := by
  have flattens := messages_lossless.1 ⟨422, colliding⟩
  refine ⟨rfl, flattens, colliding_keyedOnce, flattens.once colliding_keyedOnce, ?_, ?_, ?_⟩
  · exact (flattens.placed colliding_keyedOnce _ _ _).mpr ⟨rfl, rfl⟩
  · decide
  · exact messages_lossless.2 _ (by decide)

end Response

end Formwork
