import Mathlib.Data.List.Flatten
import Mathlib.Data.List.Forall2
import Formwork.Proofs.Node.Payload

/-!
# The leaves of a payload

A payload is read along the node that it was made for (`Node.leaves?`): a form is an object whose
entries are leaves, a collection is an object with the members of the collection, and a series is a list
with one object of members for each sibling that is not pristine. The reading gives every leaf with its
location, and nothing if the payload has another shape.

What a node sends reads as one leaf for each field that takes part in submissions and does not stand
beneath a pristine sibling, in the order of rendering (`Node.exists_leaves_wire`,
`Node.mem_sent_iff`). A location belongs to one field (`Node.Sends.unique`).
-/

set_option autoImplicit false

namespace Formwork

open Formwork.Text

/-! ## Fields at longer paths -/

namespace Member

theorem itemsAll_extend (path front : Path) (members : List (String × Member)) :
    itemsAll (path.extend front) members =
      (itemsAll front members).map fun entry => (path.extend entry.1, entry.2) := by
  induction members using groupInduction generalizing front with
  | step members ih =>
      rw [itemsAll_eq, itemsAll_eq, List.map_flatMap]
      refine List.flatMap_congr ?_
      intro entry inside
      have joined : (path.extend front).join entry.1 = path.extend (front.join entry.1) :=
        Path.extend_assoc path front ⟨[entry.1]⟩
      rw [items_eq, items_eq, List.map_cons, joined, ih entry inside]

end Member

/-- The fields of a form at a path are those of the form by itself, behind the path. -/
theorem Form.fields_eq_root (path : Path) (form : Form) :
    form.fields path = (form.fields .root).map fun entry => (path.extend entry.1, entry.2) := by
  have items := Member.itemsAll_extend path .root form.members
  rw [Path.extend_root] at items
  rw [fields, fields, Member.fields, Member.fields, items, List.filterMap_map, List.map_filterMap]
  refine List.filterMap_congr ?_
  intro entry _
  simp only [Function.comp_apply, Option.map_map]
  rfl

/-- The same for the fields that are sent. -/
theorem Form.sent_eq_root (path : Path) (form : Form) :
    (form.fields path).filter (fun entry => entry.2.isSent) =
      ((form.fields .root).filter fun entry => entry.2.isSent).map fun entry =>
        (path.extend entry.1, entry.2) := by
  rw [fields_eq_root, List.filter_map]
  rfl

namespace Node

/-! ## Reading a payload -/

/-- The leaves of a part of a payload, located in the whole. -/
def beneath (step : Json.Step) (leaves : List (Json.Location × Json)) : List (Json.Location × Json) :=
  leaves.map fun leaf => (step :: leaf.1, leaf.2)

mutual
/-- The leaves of a payload for a node with their locations, unless the payload has another shape than
the node. -/
def leaves? : Node → Json → Option (List (Json.Location × Json))
  | .form _, .object fields => some (fields.map fun (key, value) => ([.key key], value))
  | .collection _ _ members, .object fields => memberLeaves? members fields
  | .series _ _ siblings, .list items => siblingLeaves? 0 siblings items
  | _, _ => none

/-- The leaves of the fields of an object, if these are parts for the given members in their order. -/
def memberLeaves? : List (String × Node) → List (String × Json) → Option (List (Json.Location × Json))
  | [], [] => some []
  | (name, node) :: members, (key, value) :: fields =>
    if name = key then do
      let first ← node.leaves? value
      let others ← memberLeaves? members fields
      return beneath (.key name) first ++ others
    else none
  | _, _ => none

/-- The leaves of the items of a list, the first of which has the given index, if these are objects for
the siblings that are not pristine, in their order. -/
def siblingLeaves? (index : Nat) : List Sibling → List Json → Option (List (Json.Location × Json))
  | [], [] => some []
  | .mk true _ :: siblings, items => siblingLeaves? index siblings items
  | .mk false members :: siblings, .object fields :: items => do
    let first ← memberLeaves? members fields
    let others ← siblingLeaves? (index + 1) siblings items
    return beneath (.item index) first ++ others
  | _, _ => none
end

/-! ## Fields in the order of the payload -/

/-- The fields whose values are sent, with their paths, in the order of rendering. -/
def sent (path : Path) (node : Node) : List (Path × Field) :=
  (node.forms true path).flatMap fun entry => (entry.2.fields entry.1).filter fun field => field.2.isSent

/-- The fields that some members send. -/
def sentMembers (path : Path) (members : List (String × Node)) : List (Path × Field) :=
  members.flatMap fun entry => entry.2.sent (path.join entry.1)

/-- The fields that some siblings send, the first of which has the given index. -/
def sentSiblings (path : Path) (index : Nat) (siblings : List Sibling) : List (Path × Field) :=
  (siblings.zipIdx index).flatMap fun entry =>
    if entry.1.isPristine then [] else sentMembers (path.join (indexText entry.2)) entry.1.members

theorem sent_form (path : Path) (content : Form) :
    (Node.form content).sent path = (content.fields path).filter fun field => field.2.isSent := by
  simp [sent, forms, nodes, form?]

theorem sent_collection (path : Path) (frame : Frame) (progress : Option Progress)
    (members : List (String × Node)) :
    (Node.collection frame progress members).sent path = sentMembers path members := by
  rw [sent, liveForms_collection, List.flatMap_assoc]
  rfl

theorem sent_series (path : Path) (frame : Frame) (template : List (String × Node)) (siblings : List Sibling) :
    (Node.series frame template siblings).sent path = sentSiblings path 0 siblings := by
  rw [sent, liveForms_series, List.flatMap_assoc, sentSiblings]
  refine List.flatMap_congr ?_
  intro entry _
  split
  · rfl
  · rw [List.flatMap_assoc]
    rfl

/-! ## What the leaves are -/

theorem exists_of_mem_forall₂ {α β : Type} {related : α → β → Prop} {firsts : List α} {seconds : List β}
    (all : List.Forall₂ related firsts seconds) {first : α} (inside : first ∈ firsts) :
    ∃ second ∈ seconds, related first second := by
  induction all with
  | nil => cases inside
  | cons holds _ ih =>
      rcases List.mem_cons.mp inside with rfl | later
      · exact ⟨_, .head _, holds⟩
      · obtain ⟨second, among, related⟩ := ih later
        exact ⟨second, .tail _ among, related⟩

/-- A leaf is the value that the field at a path sends at this location. -/
def Holds (path : Path) (node : Node) (leaf : Json.Location × Json) (entry : Path × Field) : Prop :=
  leaf.2 = entry.2.wireValue ∧
    ∃ segments, entry.1 = path.extend ⟨segments⟩ ∧ node.Sends leaf.1 segments entry.2

section Reading

variable {path : Path} {holds : Json.Location × Json → Path × Field → Prop}

theorem forall₂_beneath {step : Json.Step} {leaves : List (Json.Location × Json)}
    {entries : List (Path × Field)}
    (each : List.Forall₂ (fun leaf entry => holds (step :: leaf.1, leaf.2) entry) leaves entries) :
    List.Forall₂ holds (beneath step leaves) entries :=
  List.forall₂_map_left_iff.mpr each

theorem exists_memberLeaves {members : List (String × Node)}
    (each : ∀ entry ∈ members, ∃ leaves, entry.2.leaves? entry.2.wire = some leaves ∧
      List.Forall₂ holds (beneath (.key entry.1) leaves) (entry.2.sent (path.join entry.1))) :
    ∃ leaves, memberLeaves? members (wireMembers members) = some leaves ∧
      List.Forall₂ holds leaves (sentMembers path members) := by
  induction members with
  | nil => exact ⟨[], rfl, .nil⟩
  | cons entry rest ih =>
      obtain ⟨first, readFirst, holdsFirst⟩ := each entry (.head _)
      obtain ⟨others, readOthers, holdOthers⟩ := ih fun entry inside => each entry (.tail _ inside)
      refine ⟨beneath (.key entry.1) first ++ others, ?_, ?_⟩
      · simp [memberLeaves?, wireMembers, readFirst, readOthers]
      · rw [sentMembers, List.flatMap_cons]
        exact List.rel_append holdsFirst holdOthers

theorem exists_siblingLeaves {index position : Nat} {siblings : List Sibling}
    (each : ∀ place members, siblings[place]? = some (.mk false members) →
      ∃ leaves, memberLeaves? members (wireMembers members) = some leaves ∧
        List.Forall₂ holds (beneath (.item (index + rank siblings place)) leaves)
          (sentMembers (path.join (indexText (position + place))) members)) :
    ∃ leaves, siblingLeaves? index siblings (wireSiblings siblings) = some leaves ∧
      List.Forall₂ holds leaves (sentSiblings path position siblings) := by
  induction siblings generalizing index position with
  | nil => exact ⟨[], rfl, .nil⟩
  | cons sibling rest ih =>
      obtain ⟨pristine, members⟩ := sibling
      rw [sentSiblings, List.zipIdx_cons, List.flatMap_cons]
      cases pristine with
      | true =>
          obtain ⟨leaves, read, hold⟩ := @ih index (position + 1) fun place members stands => by
            have later := each (place + 1) members stands
            rw [rank_cons, Sibling.isPristine_mk, if_pos rfl, Nat.zero_add] at later
            rwa [Nat.add_right_comm, Nat.add_assoc]
          refine ⟨leaves, ?_, hold⟩
          simpa [siblingLeaves?, wireSiblings] using read
      | false =>
          obtain ⟨first, readFirst, holdFirst⟩ := each 0 members rfl
          rw [rank_zero, Nat.add_zero, Nat.add_zero] at holdFirst
          obtain ⟨others, readOthers, holdOthers⟩ :=
            @ih (index + 1) (position + 1) fun place members stands => by
              have later := each (place + 1) members stands
              rw [rank_cons, Sibling.isPristine_mk, if_neg Bool.false_ne_true] at later
              rwa [Nat.add_assoc, Nat.add_assoc position, Nat.add_comm 1 place]
          refine ⟨beneath (.item index) first ++ others, ?_, List.rel_append holdFirst holdOthers⟩
          simp [siblingLeaves?, wireSiblings, readFirst, readOthers]

end Reading

/-- What a node sends has the shape of the node, and its leaves are, one by one and in order, the values
of the fields that are sent. -/
theorem exists_leaves_wire (path : Path) (node : Node) :
    ∃ leaves, node.leaves? node.wire = some leaves ∧ List.Forall₂ (node.Holds path) leaves (node.sent path) := by
  induction node using Node.induction generalizing path with
  | form content =>
      refine ⟨_, rfl, ?_⟩
      rw [sent_form, content.sent_eq_root path, List.forall₂_map_left_iff, List.forall₂_map_left_iff,
        List.forall₂_map_right_iff, List.forall₂_same]
      intro entry sent
      obtain ⟨listed, isSent⟩ := List.mem_filter.mp sent
      obtain ⟨names, same, stands⟩ := Form.mem_fields_iff.mp listed
      refine ⟨rfl, names, congrArg path.extend (same.trans (Path.root_extend _)), ?_⟩
      have located := Sends.form stands isSent
      rwa [← Path.root_extend ⟨names⟩, ← same] at located
  | collection frame progress members ih =>
      rw [sent_collection]
      refine exists_memberLeaves fun entry inside => ?_
      obtain ⟨leaves, read, hold⟩ := ih entry inside (path.join entry.1)
      refine ⟨leaves, read, forall₂_beneath (hold.imp ?_)⟩
      rintro leaf field ⟨value, segments, same, sends⟩
      exact ⟨value, entry.1 :: segments, same.trans (Path.extend_append path [entry.1] segments),
        .member inside sends⟩
  | series frame template siblings _ ih =>
      rw [sent_series]
      refine exists_siblingLeaves fun position members stands => ?_
      rw [Nat.zero_add, Nat.zero_add]
      obtain ⟨leaves, read, hold⟩ := @exists_memberLeaves (path.join (indexText position))
        (fun leaf field => (Node.series frame template siblings).Holds path
          (.item (rank siblings position) :: leaf.1, leaf.2) field) members fun entry inside => by
        obtain ⟨leaves, read, hold⟩ := ih _ (List.mem_of_getElem? stands) entry inside
          ((path.join (indexText position)).join entry.1)
        refine ⟨leaves, read, forall₂_beneath (hold.imp ?_)⟩
        rintro leaf field ⟨value, segments, same, sends⟩
        refine ⟨value, indexText position :: entry.1 :: segments, ?_, .sibling stands inside sends⟩
        rw [same, Path.join_join]
        exact Path.extend_append path [indexText position, entry.1] segments
      exact ⟨leaves, read, forall₂_beneath hold⟩

/-! ## Locations -/

/-- The siblings that are sent are told apart by their ranks. -/
theorem rank_lt {siblings : List Sibling} {first second : Nat} {members : List (String × Node)}
    (stands : siblings[first]? = some (.mk false members)) (before : first < second) :
    rank siblings first < rank siblings second := by
  have counted : rank siblings (first + 1) = rank siblings first + 1 := by
    rw [rank, List.take_add_one, stands, List.countP_append]
    rfl
  have further : rank siblings (first + 1) ≤ rank siblings second :=
    (List.take_sublist_take_left before).countP_le
  omega

theorem rank_injective {siblings : List Sibling} {first second : Nat} {members others : List (String × Node)}
    (standsFirst : siblings[first]? = some (.mk false members))
    (standsSecond : siblings[second]? = some (.mk false others))
    (same : rank siblings first = rank siblings second) : first = second := by
  rcases Nat.lt_trichotomy first second with before | equal | behind
  · exact absurd same (Nat.ne_of_lt (rank_lt standsFirst before))
  · exact equal
  · exact absurd same (Nat.ne_of_gt (rank_lt standsSecond behind))

/-- What is sent at a location belongs to one field. -/
theorem Sends.unique {node : Node} (regular : node.Regular) {location : Json.Location}
    {segments others : List String} {field other : Field} (first : node.Sends location segments field)
    (second : node.Sends location others other) : segments = others ∧ field = other := by
  induction first generalizing others other with
  | @form content names field stands sent =>
      generalize located : [Json.Step.key (Path.text ⟨names⟩)] = location at second
      obtain ⟨standsOther, -⟩ := second
      injection located with sameKey
      injection sameKey with sameText
      have sameNames : (⟨names⟩ : Path) = ⟨others⟩ := by
        rw [← stands.parse_text regular.form, sameText, standsOther.parse_text regular.form]
      injection sameNames with sameNames
      subst sameNames
      have same := stands.unique regular.form standsOther
      injection same with same
      exact ⟨rfl, same⟩
  | @member frame progress members name inner location segments field inside _ ih =>
      cases second with
      | member insideOther belowOther =>
          obtain rfl := regular.collection.unique inside insideOther
          obtain ⟨rfl, rfl⟩ := ih (regular.collection.inner _ inside) belowOther
          exact ⟨rfl, rfl⟩
  | @sibling frame template siblings index members name inner location segments field stands inside _ ih =>
      generalize located : Json.Step.item (rank siblings index) :: .key name :: location = whole at second
      cases second with
      | @sibling _ _ _ position _ _ _ _ _ _ standsOther insideOther belowOther =>
          injection located with sameItem rest
          injection sameItem with sameRank
          injection rest with sameKey sameLocation
          injection sameKey with sameName
          subst sameName sameLocation
          obtain rfl := rank_injective stands standsOther sameRank
          rw [stands] at standsOther
          cases standsOther
          have regularMembers : RegularMembers members := regular.series (List.mem_of_getElem? stands)
          obtain rfl := regularMembers.unique inside insideOther
          obtain ⟨rfl, rfl⟩ := ih (regularMembers.inner _ inside) belowOther
          exact ⟨rfl, rfl⟩

/-- What is sent is located where nothing else is. -/
theorem nodup_locations {node : Node} (regular : node.Regular) {path : Path}
    {leaves : List (Json.Location × Json)} {entries : List (Path × Field)}
    (hold : List.Forall₂ (node.Holds path) leaves entries) (nodup : (entries.map Prod.fst).Nodup) :
    (leaves.map Prod.fst).Nodup := by
  induction hold with
  | nil => exact .nil
  | @cons leaf entry leaves entries holds hold ih =>
      obtain ⟨absent, nodup⟩ := List.nodup_cons.mp nodup
      refine List.nodup_cons.mpr ⟨fun there => absent ?_, ih nodup⟩
      obtain ⟨other, inside, same⟩ := List.mem_map.mp there
      obtain ⟨partner, among, holdsOther⟩ := exists_of_mem_forall₂ hold inside
      obtain ⟨-, segments, place, sends⟩ := holds
      obtain ⟨-, others, placeOther, sendsOther⟩ := holdsOther
      obtain ⟨rfl, -⟩ := sends.unique regular (same ▸ sendsOther)
      rw [place, ← placeOther]
      exact List.mem_map_of_mem among

/-! ## Which fields have a location -/

/-- Some segments lead beneath a pristine sibling. -/
def Offered (node : Node) (segments : List String) : Prop :=
  ∃ front frame template siblings index members rest, segments = front ++ indexText index :: rest ∧
    node.Stands front (.series frame template siblings) ∧ siblings[index]? = some (.mk true members)

theorem Offered.append {node : Node} {segments : List String} (offered : node.Offered segments)
    (names : List String) : node.Offered (segments ++ names) := by
  obtain ⟨front, frame, template, siblings, index, members, rest, rfl, stands, pristine⟩ := offered
  exact ⟨front, frame, template, siblings, index, members, rest ++ names, List.append_assoc .., stands, pristine⟩

theorem not_offered_form (content : Form) (segments : List String) :
    ¬ (Node.form content).Offered segments := by
  rintro ⟨front, frame, template, siblings, index, members, rest, -, stands, -⟩
  obtain ⟨-, same⟩ := stands_form_iff.mp stands
  cases same

theorem offered_member {frame : Frame} {progress : Option Progress} {members : List (String × Node)}
    (regular : (Node.collection frame progress members).Regular) {name : String} {inner : Node}
    (inside : (name, inner) ∈ members) (segments : List String) :
    (Node.collection frame progress members).Offered (name :: segments) ↔ inner.Offered segments := by
  constructor
  · rintro ⟨front, ownFrame, template, siblings, index, others, rest, same, stands, offered⟩
    cases stands with
    | member insideOther below =>
        injection same with sameName sameRest
        subst sameName
        obtain rfl := regular.collection.unique inside insideOther
        exact ⟨_, ownFrame, template, siblings, index, others, rest, sameRest, below, offered⟩
  · rintro ⟨front, ownFrame, template, siblings, index, others, rest, rfl, stands, offered⟩
    exact ⟨name :: front, ownFrame, template, siblings, index, others, rest, rfl, .member inside stands, offered⟩

theorem offered_sibling {frame : Frame} {template : List (String × Node)} {siblings : List Sibling}
    (regular : (Node.series frame template siblings).Regular) {index : Nat} {sibling : Sibling}
    (stands : siblings[index]? = some sibling) {name : String} {inner : Node}
    (inside : (name, inner) ∈ sibling.members) (segments : List String) :
    (Node.series frame template siblings).Offered (indexText index :: name :: segments) ↔
      sibling.isPristine = true ∨ inner.Offered segments := by
  constructor
  · rintro ⟨front, ownFrame, ownTemplate, others, position, members, rest, same, below, offered⟩
    cases below with
    | here =>
        injection same with sameIndex sameRest
        obtain rfl := indexText_injective sameIndex
        rw [stands] at offered
        cases offered
        exact .inl rfl
    | sibling standsOther insideOther below =>
        injection same with sameIndex sameRest
        injection sameRest with sameName sameRest
        obtain rfl := indexText_injective sameIndex
        rw [stands] at standsOther
        cases standsOther
        subst sameName
        obtain rfl := (regular.series (List.mem_of_getElem? stands)).unique inside insideOther
        exact .inr ⟨_, ownFrame, ownTemplate, others, position, members, rest, sameRest, below, offered⟩
  · rintro (pristine | ⟨front, ownFrame, ownTemplate, others, position, members, rest, rfl, below, offered⟩)
    · obtain ⟨_, members⟩ := sibling
      obtain rfl := pristine
      exact ⟨[], frame, template, siblings, index, members, _, rfl, .here _, stands⟩
    · exact ⟨indexText index :: name :: front, ownFrame, ownTemplate, others, position, members, rest, rfl,
        .sibling stands inside below, offered⟩

/-- Exactly the fields that take part in submissions and do not stand beneath a pristine sibling have a
location. -/
theorem exists_location_iff {node : Node} (regular : node.Regular) {segments : List String} {field : Field} :
    (∃ location, node.Sends location segments field) ↔ field.isSent = true ∧ ¬ node.Offered segments ∧
      ∃ front content names, segments = front ++ names ∧ node.Stands front (.form content) ∧
        Member.Stands content.members names (.field field) := by
  constructor
  · rintro ⟨location, sends⟩
    refine ⟨sends.isSent, ?_, sends.stands⟩
    induction sends with
    | form => exact not_offered_form _ _
    | member inside _ ih =>
        rw [offered_member regular inside]
        exact ih (regular.collection.inner _ inside)
    | sibling stands inside _ ih =>
        rw [offered_sibling regular stands inside, Sibling.isPristine_mk]
        have regularMembers := regular.series (List.mem_of_getElem? stands)
        exact not_or.mpr ⟨Bool.false_ne_true, ih (regularMembers.inner _ inside)⟩
  · rintro ⟨sent, shown, front, content, names, rfl, form, member⟩
    generalize target : Node.form content = inner at form
    induction form with
    | here =>
        subst target
        exact ⟨_, .form member sent⟩
    | member inside _ ih =>
        rw [List.cons_append, offered_member regular inside] at shown
        obtain ⟨location, sends⟩ := ih (regular.collection.inner _ inside) shown target
        exact ⟨_, .member inside sends⟩
    | @sibling frame template siblings index sibling name outer inner segments stands inside _ ih =>
        have regularMembers := regular.series (List.mem_of_getElem? stands)
        rw [List.cons_append, List.cons_append, offered_sibling regular stands inside, not_or] at shown
        obtain ⟨location, sends⟩ := ih (regularMembers.inner _ inside) shown.2 target
        obtain ⟨pristine, members⟩ := sibling
        obtain rfl : pristine = false := by simpa using shown.1
        exact ⟨_, .sibling stands inside sends⟩

/-- A field is among those that are sent exactly if it has a location. -/
theorem mem_sent_iff {path place : Path} {node : Node} {field : Field} :
    (place, field) ∈ node.sent path ↔
      ∃ segments, place = path.extend ⟨segments⟩ ∧ ∃ location, node.Sends location segments field := by
  rw [sent, List.mem_flatMap]
  constructor
  · rintro ⟨⟨outer, content⟩, live, listed⟩
    obtain ⟨listed, isSent⟩ := List.mem_filter.mp listed
    obtain ⟨location, segments, rfl, sends⟩ := exists_sends_of_mem live listed isSent
    exact ⟨segments, rfl, location, sends⟩
  · rintro ⟨segments, rfl, sends⟩
    obtain ⟨isSent, entry, live, listed⟩ := exists_sends_iff.mp sends
    exact ⟨entry, live, List.mem_filter.mpr ⟨listed, isSent⟩⟩

theorem liveNodes_sublist (path : Path) (node : Node) :
    (node.nodes true path).Sublist (node.nodes false path) := by
  have members {entries : List (String × Node)} (path : Path)
      (ih : ∀ entry ∈ entries, ∀ path, (entry.2.nodes true path).Sublist (entry.2.nodes false path)) :
      (memberNodes true path entries).Sublist (memberNodes false path entries) := by
    rw [memberNodes_eq, memberNodes_eq]
    exact List.Sublist.flatMap_right entries fun entry inside => ih entry inside _
  induction node using Node.induction generalizing path with
  | form content => exact .refl _
  | collection frame progress entries ih => exact (members path ih).cons_cons _
  | series frame template siblings _ ih =>
      refine List.Sublist.cons_cons _ ?_
      rw [siblingNodes_eq, siblingNodes_eq]
      refine List.Sublist.flatMap_right _ fun entry inside => ?_
      split
      · exact List.nil_sublist _
      · exact members _ (ih _ (List.fst_mem_of_mem_zipIdx inside))

/-- What is sent is listed in the order of rendering. -/
theorem sent_sublist (path : Path) (node : Node) : (node.sent path).Sublist (node.fields path) := by
  have live : (node.forms true path).Sublist (node.forms false path) :=
    (liveNodes_sublist path node).filterMap _
  exact (List.Sublist.flatMap_right _ fun _ _ => List.filter_sublist).trans (live.flatMap _)

end Node

end Formwork
