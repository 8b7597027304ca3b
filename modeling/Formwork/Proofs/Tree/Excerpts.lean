import Formwork.Proofs.InitialData
import Formwork.Proofs.Tree.Marks

/-!
# Parts of a payload

What a node contributes to the payload of its tree stands in the payload at the location that the way to the node
leads to: by the names of members, and by the ranks of siblings among those that are not pristine
(`Node.Lies.at?_wire`). Every node has one such location, unless it is beneath a pristine sibling
(`Node.exists_lies_iff`, `Node.Lies.unique`). The payload of the node alone holds the same value inside objects with
one entry each, under the segments of its path (`Json.at?_nest_eq_some_iff`). So one of the two payloads is an
excerpt of the other (`Tree.Reachable.excerpts`).
-/

set_option autoImplicit false

namespace Formwork

open Formwork.Text

/-! ## Values inside nested objects -/

section Nest

open InitialData

variable (names : List String) (value : Json)

/-- What stands in nested objects at and beneath their names is what stands in the value. -/
theorem Json.at?_nest_append (location : Location) :
    (nest names value).at? (Location.ofNames names ++ location) = value.at? location := by
  induction names with
  | nil => rfl
  | cons name rest ih =>
      have here : Assoc.get? name [(name, nest rest value)] = some (nest rest value) := by simp [Assoc.get?]
      change (Json.object [(name, nest rest value)]).at? (.key name :: (Location.ofNames rest ++ location)) = _
      rw [at?, here, Option.bind_some, ih]

variable {names value}

/-- Nested objects hold the value, and on the way to it an object with a single entry at each step. -/
theorem Json.at?_nest_eq_some_iff {location : Location} {found : Json} :
    (nest names value).at? location = some found ↔
      (∃ rest, location = Location.ofNames names ++ rest ∧ value.at? rest = some found) ∨
        ∃ front name rest, names = front ++ name :: rest ∧ location = Location.ofNames front ∧
          found = .object [(name, nest rest value)] := by
  constructor
  · intro stands
    induction names generalizing location with
    | nil => exact .inl ⟨location, rfl, stands⟩
    | cons name rest ih =>
        change (Json.object [(name, nest rest value)]).at? location = some found at stands
        cases location with
        | nil => exact .inr ⟨[], name, rest, rfl, rfl, (Option.some.inj stands).symm⟩
        | cons step further =>
            cases step with
            | item index => cases stands
            | key other =>
                obtain ⟨inner, entry, below⟩ := Option.bind_eq_some_iff.mp stands
                obtain ⟨rfl, rfl⟩ : name = other ∧ nest rest value = inner := by simpa [Assoc.get?] using entry
                rcases ih below with ⟨beyond, rfl, there⟩ | ⟨front, next, last, rfl, rfl, rfl⟩
                · exact .inl ⟨beyond, rfl, there⟩
                · exact .inr ⟨name :: front, next, last, rfl, rfl, rfl⟩
  · rintro (⟨rest, rfl, there⟩ | ⟨front, name, rest, rfl, rfl, rfl⟩)
    · rwa [at?_nest_append]
    · have whole := at?_nest_append front (nest (name :: rest) value) []
      rw [List.append_nil] at whole
      rw [nest, List.foldr_append, ← nest]
      exact whole

end Nest

theorem Json.text?_eq_some_iff {value : Json} {content : String} :
    value.text? = some content ↔ value = .text content := by
  cases value <;> simp [text?]

/-! ## Locations of nodes -/

namespace Node

/-- A node contributes to the payload of another one at a location: the names of members lead to it, and the ranks of
siblings among those that are not pristine. -/
inductive Lies : Node → Json.Location → List String → Node → Prop where
  | here (node : Node) : Lies node [] [] node
  | member {frame : Frame} {progress : Option Progress} {members : List (String × Node)} {name : String}
      {outer inner : Node} {location : Json.Location} {segments : List String} (inside : (name, outer) ∈ members)
      (below : Lies outer location segments inner) :
      Lies (.collection frame progress members) (.key name :: location) (name :: segments) inner
  | sibling {frame : Frame} {template : List (String × Node)} {siblings : List Sibling} {index : Nat}
      {members : List (String × Node)} {name : String} {outer inner : Node} {location : Json.Location}
      {segments : List String} (stands : siblings[index]? = some (.mk false members))
      (inside : (name, outer) ∈ members) (below : Lies outer location segments inner) :
      Lies (.series frame template siblings) (.item (rank siblings index) :: .key name :: location)
        (indexText index :: name :: segments) inner

variable {node inner : Node} (regular : node.Regular) {location : Json.Location} {segments : List String}
include regular

/-- What a payload holds at the location of a node is the payload of this node. -/
theorem Lies.at?_wire (lies : node.Lies location segments inner) : node.wire.at? location = some inner.wire := by
  induction lies with
  | here => rfl
  | member inside _ ih =>
      rw [at?_wire_member _ regular.collection inside]
      exact ih (regular.collection.inner _ inside)
  | sibling stands inside _ ih =>
      have regularMembers := regular.series (List.mem_of_getElem? stands)
      rw [at?_wire_sibling _ stands regularMembers inside]
      exact ih (regularMembers.inner _ inside)

/-- The way to a node leads to one location. -/
theorem Lies.unique (lies : node.Lies location segments inner) {other : Json.Location} {found : Node}
    (second : node.Lies other segments found) : other = location ∧ found = inner := by
  induction lies generalizing other with
  | here =>
      cases second
      exact ⟨rfl, rfl⟩
  | member inside _ ih =>
      cases second with
      | member insideOther below =>
          obtain rfl := regular.collection.unique inside insideOther
          obtain ⟨rfl, rfl⟩ := ih (regular.collection.inner _ inside) below
          exact ⟨rfl, rfl⟩
  | @sibling frame template siblings index members name outer inner location segments stands inside _ ih =>
      generalize same : indexText index :: name :: segments = whole at second
      cases second with
      | here => cases same
      | sibling standsOther insideOther below =>
          injection same with sameIndex sameRest
          injection sameRest with sameName sameSegments
          obtain rfl := indexText_injective sameIndex
          subst sameName sameSegments
          rw [stands] at standsOther
          cases standsOther
          have regularMembers := regular.series (List.mem_of_getElem? stands)
          obtain rfl := regularMembers.unique inside insideOther
          obtain ⟨rfl, rfl⟩ := ih (regularMembers.inner _ inside) below
          exact ⟨rfl, rfl⟩

/-- The nodes with a location are those that do not stand beneath a pristine sibling. -/
theorem exists_lies_iff : (∃ location, node.Lies location segments inner) ↔
    node.Stands segments inner ∧ ¬ node.Offered segments := by
  constructor
  · rintro ⟨location, lies⟩
    induction lies with
    | here =>
        refine ⟨.here _, ?_⟩
        rintro ⟨front, _, _, _, _, _, _, nothing, -⟩
        exact absurd nothing (by simp)
    | member inside _ ih =>
        obtain ⟨stands, shown⟩ := ih (regular.collection.inner _ inside)
        exact ⟨.member inside stands, by rwa [offered_member regular inside]⟩
    | sibling there inside _ ih =>
        have regularMembers := regular.series (List.mem_of_getElem? there)
        obtain ⟨stands, shown⟩ := ih (regularMembers.inner _ inside)
        refine ⟨.sibling there inside stands, ?_⟩
        rw [offered_sibling regular there inside, Sibling.isPristine_mk]
        exact not_or.mpr ⟨Bool.false_ne_true, shown⟩
  · rintro ⟨stands, shown⟩
    induction stands with
    | here => exact ⟨_, .here _⟩
    | member inside _ ih =>
        rw [offered_member regular inside] at shown
        obtain ⟨location, lies⟩ := ih (regular.collection.inner _ inside) shown
        exact ⟨_, .member inside lies⟩
    | @sibling _ _ _ _ sibling _ _ _ _ there inside _ ih =>
        rw [offered_sibling regular there inside, not_or] at shown
        have regularMembers := regular.series (List.mem_of_getElem? there)
        obtain ⟨location, lies⟩ := ih (regularMembers.inner _ inside) shown.2
        obtain ⟨pristine, members⟩ := sibling
        obtain rfl : pristine = false := Bool.eq_false_iff.mpr shown.1
        exact ⟨_, .sibling there inside lies⟩

end Node

/-! ## The payload of a part -/

namespace Tree

variable {tree : Tree}

variable (tree) in
/-- The payload of a node alone is an excerpt of the payload of the tree. -/
structure Excerpt (path : Path) (node : Node) (segments : List String) (location : Json.Location) : Prop where
  /-- The segments lead to the node from the root. -/
  place : path = tree.here.extend ⟨segments⟩
  /-- The location is that of the node in the payload of the tree. -/
  lies : tree.root.Lies location segments node
  only : ∀ other found, tree.root.Lies other segments found → other = location ∧ found = node
  /-- Both payloads hold the same value, one at the location and one at the segments. -/
  whole : tree.payload.at? location = some node.wire
  part : (tree.partialPayload path).at? (.ofNames segments) = some node.wire
  /-- Besides this value and what is in it, the payload of the node alone has nothing but the objects with a single
  entry that lead to the value. -/
  nothingElse : ∀ other found, (tree.partialPayload path).at? other = some found →
    (∃ rest, other = Json.Location.ofNames segments ++ rest ∧ node.wire.at? rest = some found) ∨
      ∃ front name rest, segments = front ++ name :: rest ∧ other = Json.Location.ofNames front ∧
        ∃ inner, found = .object [(name, inner)]

/-- In a reachable tree the payload of every node that is not beneath a pristine sibling is an excerpt of the payload
of the tree. -/
theorem Reachable.excerpts (reachable : tree.Reachable) {path : Path} {node : Node}
    (listed : (path, node) ∈ tree.nodes) (shown : ¬ tree.Offered path) :
    ∃ segments location, tree.Excerpt path node segments location := by
  have regular := reachable.regular
  have found := (node?_eq_some_iff regular).mpr listed
  obtain ⟨segments, rfl, stands⟩ := Node.mem_nodes_iff.mp listed
  rw [offered_iff] at shown
  obtain ⟨location, lies⟩ := (Node.exists_lies_iff regular).mpr ⟨stands, shown⟩
  have nested : tree.partialPayload (tree.here.extend ⟨segments⟩) = InitialData.nest segments node.wire := by
    rw [partialPayload, found, below?_eq_some_iff.mpr rfl, Option.getD_some]
  refine ⟨segments, location, rfl, lies, fun other _ second => lies.unique regular second, lies.at?_wire regular,
    ?_, ?_⟩
  · have stands := Json.at?_nest_append segments node.wire []
    rw [List.append_nil] at stands
    rw [nested, stands]
    rfl
  · intro other found there
    rw [nested] at there
    rcases Json.at?_nest_eq_some_iff.mp there with beneath | ⟨front, name, rest, same, above, isObject⟩
    · exact .inl beneath
    · exact .inr ⟨front, name, rest, same, above, _, isObject⟩

/-- The second of two orders is filled in: it stands in the payload as the first item of a list, and alone in an
object under its index. -/
theorem excerpts_second_order : ∃ (tree : Tree) (node : Node), tree.Reachable ∧
    (⟨["shop", "1", "order"]⟩, node) ∈ tree.nodes ∧ ¬ tree.Offered ⟨["shop", "1", "order"]⟩ ∧
      tree.payload.at? [.item 0, .key "order", .key "size"] = some (.text "large") ∧
        tree.partialPayload ⟨["shop", "1", "order"]⟩ =
            .object [("1", .object [("order", .object [("size", .text "large")])])] ∧
          ∃ segments location, tree.Excerpt ⟨["shop", "1", "order"]⟩ node segments location := by
  -- Evaluation decides what is in the values, since it does not decide whether two values are equal.
  have holds : ((Tree.mount orders none).toOption.bind fun mounted =>
      let tree := mounted.after (.setValue ⟨["shop", "1", "order", "size"]⟩ (.text "large"))
      (tree.node? ⟨["shop", "1", "order"]⟩).map fun node => decide
        (tree.markings = [(⟨["shop", "0"]⟩, true), (⟨["shop", "1"]⟩, false)] ∧
          tree.below? ⟨["shop", "1", "order"]⟩ = some ["1", "order"] ∧
            (tree.payload.at? [.item 0, .key "order", .key "size"]).bind Json.text? = some "large" ∧
              (responseFields node.wire).map (fun field => (field.1, field.2.text?)) = [("size", some "large")])) =
      some true := by
    decide +kernel
  obtain ⟨mounted, isMounted, holds⟩ := Option.bind_eq_some_iff.mp holds
  rw [toOption_eq_some] at isMounted
  have reachable := (Reachable.mounted isMounted).after
    (.setValue ⟨["shop", "1", "order", "size"]⟩ (.text "large"))
  obtain ⟨node, found, holds⟩ := Option.map_eq_some_iff.mp holds
  obtain ⟨marks, below, whole, fields⟩ := of_decide_eq_true holds
  obtain ⟨value, whole, isText⟩ := Option.bind_eq_some_iff.mp whole
  obtain rfl := Json.text?_eq_some_iff.mp isText
  have wire : node.wire = .object [("size", .text "large")] := by
    cases isObject : node.wire with
    | object entries =>
        rw [isObject] at fields
        obtain ⟨entry, rfl, same⟩ := List.map_eq_singleton_iff.mp fields
        injection same with name isText
        rw [← name, ← Json.text?_eq_some_iff.mp isText]
    | _ =>
        rw [isObject] at fields
        cases fields
  have listed := (node?_eq_some_iff reachable.regular).mp found
  refine ⟨_, node, reachable, listed, ?shown, whole, ?part, reachable.excerpts listed ?shown⟩
  case shown =>
    rw [offered_iff_marked, marks]
    rintro ⟨place, marked, around⟩
    obtain rfl : place = ⟨["shop", "0"]⟩ := by simpa using marked
    exact absurd around (by decide)
  case part =>
    rw [partialPayload, found, below, Option.getD_some]
    exact congrArg (InitialData.nest ["1", "order"]) wire

end Tree

end Formwork
