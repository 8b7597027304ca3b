import Formwork.Proofs.DottedPath
import Formwork.Proofs.Node.Places

/-!
# Where values stand in a payload

A location in a JSON value is made of keys and indices (`Json.Location`). A node sends a field at
a location if the field stands in a form that is not beneath a pristine sibling and takes part in
submissions (`Node.Sends`); what stands in the payload at this location is the value of the field
(`Node.Sends.at?_wire`), and every such field has a location (`Node.exists_sends_iff`).

In a payload a sibling of a series is counted among the siblings that are sent, and in a path among all
siblings. So the location of a field, read as a dotted path, is the path of the field exactly if no
pristine sibling stands in front of a sibling on the way (`Node.Sends.parse_eq_iff`).
-/

set_option autoImplicit false

namespace Formwork

open Formwork.Text

namespace Json

/-- A step from a JSON value to a part of it. -/
inductive Step where
  | key (name : String)
  | item (index : Nat)
deriving DecidableEq, Repr

def Step.text : Step → String
  | .key name => name
  | .item index => indexText index

/-- The steps from a JSON value to a part of it, outermost first. -/
abbrev Location := List Step

/-- The keys and indices of a location, joined with dots. -/
def Location.text (location : Location) : String := String.intercalate "." (location.map Step.text)

/-- The part of a JSON value that stands at a location. -/
def at? : Location → Json → Option Json
  | [], value => some value
  | .key name :: rest, .object fields => (Assoc.get? name fields).bind (at? rest)
  | .item index :: rest, .list items => items[index]?.bind (at? rest)
  | _, _ => none

theorem Location.parse_text_nil : Path.parse (Location.text []) = .root := by
  rw [Location.text, List.map_nil, String.intercalate_nil, Path.parse_empty]

theorem Location.parse_text_cons (step : Step) (rest : Location) :
    Path.parse (Location.text (step :: rest)) =
      (Path.parse step.text).extend (Path.parse (Location.text rest)) := by
  rw [Location.text, Location.text, List.map_cons, Path.parse_intercalate, Path.parse_intercalate,
    List.flatMap_cons]
  rfl

/-- A location that begins with a plain key is read as this key and what follows. -/
theorem Location.segments_key {name : String} (plain : Path.Plain name) (rest : Location) :
    (Path.parse (Location.text (.key name :: rest))).segments =
      name :: (Path.parse (Location.text rest)).segments := by
  rw [parse_text_cons, Step.text, Path.parse_of_plain plain]
  rfl

/-- A location that begins with an index is read as this index and what follows. -/
theorem Location.segments_item (index : Nat) (rest : Location) :
    (Path.parse (Location.text (.item index :: rest))).segments =
      indexText index :: (Path.parse (Location.text rest)).segments := by
  rw [parse_text_cons, Step.text, Path.parse_of_plain (Path.plain_indexText index)]
  rfl

end Json

namespace Member

/-- The names that lead to a member are identifiers. -/
theorem Stands.isIdentifier {members : List (String × Member)} {names : List String} {member : Member}
    (stands : Stands members names member) (regular : Regular members) :
    ∀ name ∈ names, Text.isIdentifier name.toList = true := by
  induction stands with
  | here inside => exact List.forall_mem_singleton.mpr (Path.isIdentifier_of_isMemberName (regular.isMemberName inside))
  | beneath inside _ ih =>
      exact List.forall_mem_cons.mpr
        ⟨Path.isIdentifier_of_isMemberName (regular.isMemberName inside), ih (regular.inner inside)⟩

theorem Stands.plain {members : List (String × Member)} {names : List String} {member : Member}
    (stands : Stands members names member) (regular : Regular members) :
    ∀ name ∈ names, Path.Plain name := fun name among =>
  Path.plain_of_isIdentifier (stands.isIdentifier regular name among)

/-- The names that lead to a member are read back from their dotted text. -/
theorem Stands.parse_text {members : List (String × Member)} {names : List String} {member : Member}
    (stands : Stands members names member) (regular : Regular members) :
    Path.parse (Path.text ⟨names⟩) = ⟨names⟩ :=
  Path.parse_text (stands.plain regular)

/-- The key under which a field of a form is sent is read as the names that lead to the field. -/
theorem Stands.segments_key {members : List (String × Member)} {names : List String} {member : Member}
    (stands : Stands members names member) (regular : Regular members) :
    (Path.parse (Json.Location.text [.key (Path.text ⟨names⟩)])).segments = names := by
  rw [Json.Location.parse_text_cons, Json.Step.text, stands.parse_text regular,
    Json.Location.parse_text_nil, Path.extend_root]

end Member

/-- No two fields of a form are sent under one name. -/
theorem Form.nodup_keys_wire {content : Form} (regular : Member.Regular content.members) :
    (Assoc.keys (((content.fields .root).filter fun entry => entry.2.isSent).map fun entry =>
      (entry.1.text, entry.2.wireValue))).Nodup := by
  refine List.Nodup.of_map Path.parse ?_
  have readBack : ∀ entry ∈ (content.fields .root).filter fun entry => entry.2.isSent,
      Path.parse entry.1.text = entry.1 := by
    intro entry sent
    obtain ⟨names, place, stands⟩ := Form.mem_fields_iff.mp (List.mem_of_mem_filter sent)
    rw [place, Path.root_extend]
    exact stands.parse_text regular
  have places : (Assoc.keys (((content.fields .root).filter fun entry => entry.2.isSent).map fun entry =>
      (entry.1.text, entry.2.wireValue))).map Path.parse =
        ((content.fields .root).filter fun entry => entry.2.isSent).map Prod.fst := by
    simp only [Assoc.keys, List.map_map]
    exact List.map_congr_left readBack
  rw [places]
  exact (Form.nodup_fields regular .root).sublist (List.filter_sublist.map Prod.fst)

/-- The part of a payload for a form holds the value of a field under the names that lead to it. -/
theorem Form.at?_wire {content : Form} (regular : Member.Regular content.members) {names : List String}
    {field : Field} (stands : Member.Stands content.members names (.field field))
    (sent : field.isSent = true) :
    content.wire.at? [.key (Path.text ⟨names⟩)] = some field.wireValue := by
  have listed : (Path.mk names, field) ∈ content.fields .root :=
    Form.mem_fields_iff.mpr ⟨names, (Path.root_extend _).symm, stands⟩
  have found := (Assoc.get?_eq_some_iff (Form.nodup_keys_wire regular)).mpr
    (List.mem_map.mpr ⟨_, List.mem_filter.mpr ⟨listed, sent⟩, rfl⟩)
  rw [Form.wire, Json.at?, found]
  rfl

namespace Node

/-! ## Fields that are sent -/

/-- How many siblings are sent in front of the sibling at an index. -/
def rank (siblings : List Sibling) (index : Nat) : Nat :=
  (siblings.take index).countP fun sibling => !sibling.isPristine

theorem rank_zero (siblings : List Sibling) : rank siblings 0 = 0 := rfl

theorem rank_cons (sibling : Sibling) (siblings : List Sibling) (index : Nat) :
    rank (sibling :: siblings) (index + 1) =
      (if sibling.isPristine then 0 else 1) + rank siblings index := by
  rw [rank, List.take_succ_cons, List.countP_cons, Nat.add_comm]
  cases sibling.isPristine <;> rfl

/-- A node sends the value of the field at some segments at a location of its payload. -/
inductive Sends : Node → Json.Location → List String → Field → Prop where
  | form {content : Form} {names : List String} {field : Field}
      (stands : Member.Stands content.members names (.field field)) (sent : field.isSent = true) :
      Sends (.form content) [.key (Path.text ⟨names⟩)] names field
  | member {frame : Frame} {progress : Option Progress} {members : List (String × Node)} {name : String}
      {inner : Node} {location : Json.Location} {segments : List String} {field : Field}
      (inside : (name, inner) ∈ members) (below : Sends inner location segments field) :
      Sends (.collection frame progress members) (.key name :: location) (name :: segments) field
  | sibling {frame : Frame} {template : List (String × Node)} {siblings : List Sibling} {index : Nat}
      {members : List (String × Node)} {name : String} {inner : Node} {location : Json.Location}
      {segments : List String} {field : Field} (stands : siblings[index]? = some (.mk false members))
      (inside : (name, inner) ∈ members) (below : Sends inner location segments field) :
      Sends (.series frame template siblings) (.item (rank siblings index) :: .key name :: location)
        (indexText index :: name :: segments) field

/-- What is sent belongs to a field of the node. -/
theorem Sends.stands {node : Node} {location : Json.Location} {segments : List String} {field : Field}
    (sends : node.Sends location segments field) : ∃ front content names, segments = front ++ names ∧
      node.Stands front (.form content) ∧ Member.Stands content.members names (.field field) := by
  induction sends with
  | form stands _ => exact ⟨[], _, _, rfl, .here _, stands⟩
  | member inside _ ih =>
      obtain ⟨front, content, names, rfl, form, member⟩ := ih
      exact ⟨_ :: front, content, names, rfl, .member inside form, member⟩
  | sibling stands inside _ ih =>
      obtain ⟨front, content, names, rfl, form, member⟩ := ih
      exact ⟨_ :: _ :: front, content, names, rfl, .sibling stands inside form, member⟩

theorem Sends.isSent {node : Node} {location : Json.Location} {segments : List String} {field : Field}
    (sends : node.Sends location segments field) : field.isSent = true := by
  induction sends with
  | form _ sent => exact sent
  | member _ _ ih => exact ih
  | sibling _ _ _ ih => exact ih

theorem wireMembers_eq (members : List (String × Node)) :
    wireMembers members = members.map fun entry => (entry.1, entry.2.wire) := by
  induction members with
  | nil => rfl
  | cons entry rest ih => simp only [wireMembers, ih, List.map_cons]

theorem wireSiblings_eq (siblings : List Sibling) :
    wireSiblings siblings = (siblings.filter fun sibling => !sibling.isPristine).map fun sibling =>
      .object (wireMembers sibling.members) := by
  induction siblings with
  | nil => rfl
  | cons sibling rest ih =>
      obtain ⟨pristine, members⟩ := sibling
      cases pristine with
      | true => exact ih
      | false => exact congrArg _ ih

/-- A sibling that is sent stands in the payload at its rank. -/
theorem getElem?_wireSiblings {siblings : List Sibling} {index : Nat} {members : List (String × Node)}
    (stands : siblings[index]? = some (.mk false members)) :
    (wireSiblings siblings)[rank siblings index]? = some (.object (wireMembers members)) := by
  induction siblings generalizing index with
  | nil => simp at stands
  | cons sibling rest ih =>
      obtain ⟨pristine, others⟩ := sibling
      cases index with
      | zero =>
          cases stands
          rfl
      | succ index =>
          have later := ih stands
          rw [rank_cons]
          cases pristine with
          | true => simpa [wireSiblings] using later
          | false => simpa [wireSiblings, Nat.add_comm 1] using later

/-- The payload of some members holds what each of them sends under its name. -/
theorem RegularMembers.get?_wireMembers {members : List (String × Node)} (regular : RegularMembers members)
    {name : String} {inner : Node} (inside : (name, inner) ∈ members) :
    Assoc.get? name (wireMembers members) = some inner.wire := by
  rw [wireMembers_eq, Assoc.get?_eq_some_iff]
  · exact List.mem_map.mpr ⟨_, inside, rfl⟩
  · simpa [Assoc.keys, Function.comp_def] using regular.nodup

section Beneath

variable {frame : Frame} {members template : List (String × Node)} {siblings : List Sibling} {name : String}
variable {inner : Node} (location : Json.Location)

/-- Beneath the name of a member, the payload of a collection is that of the member. -/
theorem at?_wire_member {progress : Option Progress} (regular : RegularMembers members)
    (inside : (name, inner) ∈ members) :
    (Node.collection frame progress members).wire.at? (.key name :: location) = inner.wire.at? location := by
  rw [wire, Json.at?, regular.get?_wireMembers inside, Option.bind_some]

/-- Beneath the rank of a sibling and the name of a member, the payload of a series is that of the member. -/
theorem at?_wire_sibling {index : Nat} (stands : siblings[index]? = some (.mk false members))
    (regular : RegularMembers members) (inside : (name, inner) ∈ members) :
    (Node.series frame template siblings).wire.at? (.item (rank siblings index) :: .key name :: location) =
      inner.wire.at? location := by
  rw [wire, Json.at?, getElem?_wireSiblings stands, Option.bind_some, Json.at?, regular.get?_wireMembers inside,
    Option.bind_some]

end Beneath

/-- What a payload holds at the location of a field is the value of the field. -/
theorem Sends.at?_wire {node : Node} (regular : node.Regular) {location : Json.Location}
    {segments : List String} {field : Field} (sends : node.Sends location segments field) :
    node.wire.at? location = some field.wireValue := by
  induction sends with
  | form stands sent => exact Form.at?_wire regular.form stands sent
  | member inside _ ih =>
      rw [at?_wire_member _ regular.collection inside]
      exact ih (regular.collection.inner _ inside)
  | sibling stands inside _ ih =>
      have regularMembers := regular.series (List.mem_of_getElem? stands)
      rw [at?_wire_sibling _ stands regularMembers inside]
      exact ih (regularMembers.inner _ inside)

/-! ## Which fields are sent -/

section Live

variable {path place : Path} {content : Form} {frame : Frame}

theorem liveForms_collection (progress : Option Progress) (members : List (String × Node)) :
    (Node.collection frame progress members).forms true path =
      members.flatMap fun entry => entry.2.forms true (path.join entry.1) := by
  simp only [forms, nodes, memberNodes_eq, List.filterMap_cons, form?, Option.map_none,
    List.filterMap_flatMap]

theorem liveForms_series (template : List (String × Node)) (siblings : List Sibling) :
    (Node.series frame template siblings).forms true path =
      siblings.zipIdx.flatMap fun entry =>
        if entry.1.isPristine then []
        else entry.1.members.flatMap fun member =>
          member.2.forms true ((path.join (indexText entry.2)).join member.1) := by
  simp only [forms, nodes, siblingNodes_eq, memberNodes_eq, List.filterMap_cons, form?, Option.map_none,
    List.filterMap_flatMap, Bool.true_and]
  refine List.flatMap_congr ?_
  intro entry _
  split <;> simp [List.filterMap_flatMap]

theorem mem_liveForms_collection {progress : Option Progress} {members : List (String × Node)} :
    (place, content) ∈ (Node.collection frame progress members).forms true path ↔
      ∃ name inner, (name, inner) ∈ members ∧ (place, content) ∈ inner.forms true (path.join name) := by
  simp [liveForms_collection]

theorem mem_liveForms_series {template : List (String × Node)} {siblings : List Sibling} :
    (place, content) ∈ (Node.series frame template siblings).forms true path ↔
      ∃ index members name inner, siblings[index]? = some (Sibling.mk false members) ∧
        (name, inner) ∈ members ∧
          (place, content) ∈ inner.forms true ((path.join (indexText index)).join name) := by
  rw [liveForms_series, List.mem_flatMap]
  constructor
  · rintro ⟨⟨⟨pristine, members⟩, index⟩, inside, there⟩
    cases pristine with
    | true => simp [Sibling.isPristine] at there
    | false =>
        obtain ⟨⟨name, inner⟩, member, there⟩ := List.mem_flatMap.mp there
        exact ⟨index, members, name, inner, List.mk_mem_zipIdx_iff_getElem?.mp inside, member, there⟩
  · rintro ⟨index, members, name, inner, stands, member, there⟩
    exact ⟨(.mk false members, index), List.mk_mem_zipIdx_iff_getElem?.mpr stands,
      List.mem_flatMap.mpr ⟨(name, inner), member, there⟩⟩

/-- Every field of a form outside pristine siblings that takes part in submissions is sent. -/
theorem exists_sends_of_mem {node : Node} (live : (place, content) ∈ node.forms true path)
    {there : Path} {field : Field} (listed : (there, field) ∈ content.fields place)
    (sent : field.isSent = true) :
    ∃ location segments, there = path.extend ⟨segments⟩ ∧ node.Sends location segments field := by
  induction node using Node.induction generalizing path with
  | form other =>
      obtain ⟨rfl, rfl⟩ : place = path ∧ content = other := by
        simpa [forms, nodes, form?] using live
      obtain ⟨names, rfl, stands⟩ := Form.mem_fields_iff.mp listed
      exact ⟨_, names, rfl, .form stands sent⟩
  | collection frame progress members ih =>
      obtain ⟨name, inner, inside, beneath⟩ := mem_liveForms_collection.mp live
      obtain ⟨location, segments, rfl, sends⟩ := ih (name, inner) inside beneath
      exact ⟨_, name :: segments, Path.extend_append path [name] segments, .member inside sends⟩
  | series frame template siblings _ ih =>
      obtain ⟨index, members, name, inner, stands, inside, beneath⟩ := mem_liveForms_series.mp live
      obtain ⟨location, segments, rfl, sends⟩ :=
        ih _ (List.mem_of_getElem? stands) (name, inner) inside beneath
      refine ⟨_, indexText index :: name :: segments, ?_, .sibling stands inside sends⟩
      rw [Path.join_join]
      exact Path.extend_append path [indexText index, name] segments

/-- The fields that are sent are those that take part in submissions and do not stand beneath a
pristine sibling. -/
theorem exists_sends_iff {node : Node} {segments : List String} {field : Field} :
    (∃ location, node.Sends location segments field) ↔ field.isSent = true ∧
      ∃ entry ∈ node.forms true path, (path.extend ⟨segments⟩, field) ∈ entry.2.fields entry.1 := by
  constructor
  · rintro ⟨location, sends⟩
    induction sends generalizing path with
    | @form content names field stands sent =>
        refine ⟨sent, (path, content), ?_, Form.mem_fields_iff.mpr ⟨names, rfl, stands⟩⟩
        simp [forms, nodes, form?]
    | @member frame progress members name inner location segments field inside _ ih =>
        obtain ⟨sent, entry, live, listed⟩ := @ih (path.join name)
        refine ⟨sent, entry, mem_liveForms_collection.mpr ⟨name, inner, inside, live⟩, ?_⟩
        rwa [Path.join_eq_extend, Path.extend_append] at listed
    | @sibling frame template siblings index members name inner location segments field there inside _ ih =>
        obtain ⟨sent, entry, live, listed⟩ := @ih ((path.join (indexText index)).join name)
        refine ⟨sent, entry,
          mem_liveForms_series.mpr ⟨index, members, name, inner, there, inside, live⟩, ?_⟩
        rwa [Path.join_join, Path.extend_append] at listed
  · rintro ⟨sent, entry, live, listed⟩
    obtain ⟨location, others, same, sends⟩ := exists_sends_of_mem live listed sent
    cases Path.extend_injective same
    exact ⟨location, sends⟩

end Live

/-! ## Locations and paths -/

/-- No pristine sibling stands in front of a sibling on the way along some segments. -/
def Unbroken (segments : List String) (node : Node) : Prop :=
  ∀ frame template siblings index rest,
    (indexText index :: rest, Node.series frame template siblings) ∈ node.lineage segments →
      ∀ sibling ∈ siblings.take index, sibling.isPristine = false

theorem unbroken_form (content : Form) (segments : List String) :
    (Node.form content).Unbroken segments := by
  intro frame template siblings index rest among
  simp [lineage] at among

/-- The way on beneath a branch. -/
theorem Regular.lineage_branch {node : Node} (regular : node.Regular) {front : List String} {inner : Node}
    (inside : (front, inner) ∈ node.branches) (rest : List String) :
    node.lineage (front ++ rest) = (front ++ rest, node) :: inner.lineage rest := by
  rw [lineage_eq, (next?_eq_some_iff regular).mpr ⟨front, inside, rfl⟩]

theorem unbroken_member {frame : Frame} {progress : Option Progress} {members : List (String × Node)}
    (regular : (Node.collection frame progress members).Regular) {name : String} {inner : Node}
    (inside : (name, inner) ∈ members) (segments : List String) :
    (Node.collection frame progress members).Unbroken (name :: segments) ↔ inner.Unbroken segments := by
  have branch : ([name], inner) ∈ (Node.collection frame progress members).branches :=
    mem_branches_collection.mpr ⟨name, rfl, inside⟩
  have lineage := regular.lineage_branch branch segments
  rw [List.singleton_append] at lineage
  simp [Unbroken, lineage]

theorem unbroken_sibling {frame : Frame} {template : List (String × Node)} {siblings : List Sibling}
    (regular : (Node.series frame template siblings).Regular) {index : Nat} {sibling : Sibling}
    (stands : siblings[index]? = some sibling) {name : String} {inner : Node}
    (inside : (name, inner) ∈ sibling.members) (segments : List String) :
    (Node.series frame template siblings).Unbroken (indexText index :: name :: segments) ↔
      (∀ sibling ∈ siblings.take index, sibling.isPristine = false) ∧ inner.Unbroken segments := by
  have branch : ([indexText index, name], inner) ∈ (Node.series frame template siblings).branches :=
    mem_branches_series.mpr ⟨index, sibling, name, stands, rfl, inside⟩
  have lineage := regular.lineage_branch branch segments
  simp only [List.cons_append, List.nil_append] at lineage
  constructor
  · intro unbroken
    refine ⟨unbroken frame template siblings index (name :: segments) ?_, ?_⟩
    · rw [lineage]
      exact List.mem_cons_self
    · intro frame template siblings index rest among
      refine unbroken frame template siblings index rest ?_
      rw [lineage]
      exact List.mem_cons_of_mem _ among
  · rintro ⟨touched, unbroken⟩ otherFrame otherTemplate otherSiblings otherIndex rest among
    rw [lineage, List.mem_cons] at among
    rcases among with same | beneath
    · obtain ⟨⟨sameIndex, -⟩, -, -, rfl⟩ : (indexText otherIndex = indexText index ∧ _) ∧ _ := by
        simpa using same
      rwa [indexText_injective sameIndex]
    · exact unbroken _ _ _ _ _ beneath

/-- A sibling stands in the payload at its own index exactly if all siblings in front of it are
sent. -/
theorem rank_eq_iff {siblings : List Sibling} {index : Nat} {sibling : Sibling}
    (stands : siblings[index]? = some sibling) :
    rank siblings index = index ↔ ∀ sibling ∈ siblings.take index, sibling.isPristine = false := by
  obtain ⟨short, -⟩ := List.getElem?_eq_some_iff.mp stands
  have length : (siblings.take index).length = index := List.length_take_of_le (Nat.le_of_lt short)
  have counted := List.countP_eq_length (p := fun sibling => !sibling.isPristine)
    (l := siblings.take index)
  rw [length] at counted
  rw [rank, counted]
  simp

/-- The location of a field in the payload reads as its path exactly if the way is unbroken. -/
theorem Sends.parse_eq_iff {node : Node} (regular : node.Regular) {location : Json.Location}
    {segments : List String} {field : Field} (sends : node.Sends location segments field) :
    (Path.parse location.text).segments = segments ↔ node.Unbroken segments := by
  induction sends with
  | @form content names field stands sent =>
      exact iff_of_true (stands.segments_key regular.form) (unbroken_form content names)
  | @member frame progress members name inner location segments field inside _ ih =>
      have plain := Path.plain_of_isMemberName (regular.collection.named _ inside)
      rw [unbroken_member regular inside, ← ih (regular.collection.inner _ inside),
        Json.Location.segments_key plain, List.cons_inj_right]
  | @sibling frame template siblings index members name inner location segments field stands inside _ ih =>
      have regularMembers : RegularMembers members := regular.series (List.mem_of_getElem? stands)
      have plain := Path.plain_of_isMemberName (regularMembers.named _ inside)
      rw [unbroken_sibling regular stands inside, ← ih (regularMembers.inner _ inside),
        ← rank_eq_iff stands, Json.Location.segments_item, Json.Location.segments_key plain,
        List.cons_eq_cons, List.cons_inj_right]
      exact and_congr ⟨indexText_injective, congrArg indexText⟩ Iff.rfl

/-- A field and its location end with the same name. -/
theorem Sends.getLast?_eq {node : Node} (regular : node.Regular) {location : Json.Location}
    {segments : List String} {field : Field} (sends : node.Sends location segments field) :
    (Path.parse location.text).segments.getLast? = segments.getLast? := by
  induction sends with
  | @form content names field stands sent =>
      rw [stands.segments_key regular.form]
  | @member frame progress members name inner location segments field inside _ ih =>
      have plain := Path.plain_of_isMemberName (regular.collection.named _ inside)
      rw [Json.Location.segments_key plain, List.getLast?_cons, List.getLast?_cons,
        ih (regular.collection.inner _ inside)]
  | @sibling frame template siblings index members name inner location segments field stands inside _ ih =>
      have regularMembers : RegularMembers members := regular.series (List.mem_of_getElem? stands)
      have plain := Path.plain_of_isMemberName (regularMembers.named _ inside)
      rw [Json.Location.segments_item, Json.Location.segments_key plain]
      simp only [List.getLast?_cons, ih (regularMembers.inner _ inside), Option.getD_some]

end Node

end Formwork
