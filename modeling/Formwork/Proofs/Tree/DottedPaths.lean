import Formwork.Path.Encoding
import Formwork.Proofs.DottedPath
import Formwork.Proofs.Json.Quoting
import Formwork.Proofs.Tree.Paths

/-!
# Dotted paths of a tree

A path of plain segments is recovered from whatever it is written as: from its dotted text, from a
document and from JSON (`Path.Recovered`). The elements of a tree remember such paths, and those of
templates do, because names of members, indices of siblings and the segments of a namespace are all
plain (`Tree.Remembers.beneath`). So the address that is left of a path when the namespace is taken
away leads back to the path (`Tree.path_text`).
-/

set_option autoImplicit false

namespace Formwork

/-! ## What is written for a path -/

namespace Path

/-- Nothing of a path is lost in writing. -/
structure Recovered (path : Path) : Prop where
  parsed : parse path.text = path
  /-- No other plain path has the same text. -/
  alone : ∀ other : Path, other.IsPlain → other.text = path.text → other = path
  decoded : ofDocument? (.ofJson path.toJson) = some path
  reread : read? path.print = some path

theorem IsPlain.recovered {path : Path} (plain : path.IsPlain) : path.Recovered where
  parsed := parse_text plain
  alone := fun _ plainOther same => text_injective plainOther plain same
  decoded := congrArg some (parse_text plain)
  reread := by
    rw [read?, print, toJson, Json.parse?_print_text, Option.bind_some]
    exact congrArg some (parse_text plain)

/-- A path leads along another one and then along plain segments. -/
def Beneath (place path : Path) : Prop := ∃ rest : Path, rest.IsPlain ∧ place = path.extend rest

theorem beneath_self (path : Path) : path.Beneath path := ⟨root, isPlain_root, (extend_root path).symm⟩

theorem beneath_join (path : Path) {segment : String} (plain : Plain segment) : (path.join segment).Beneath path :=
  ⟨⟨[segment]⟩, List.forall_mem_singleton.mpr plain, path.join_eq_extend segment⟩

theorem Beneath.trans {place middle path : Path} (lower : place.Beneath middle) (upper : middle.Beneath path) :
    place.Beneath path := by
  obtain ⟨rest, plainRest, rfl⟩ := lower
  obtain ⟨front, plainFront, rfl⟩ := upper
  exact ⟨front.extend rest, isPlain_extend_iff.mpr ⟨plainFront, plainRest⟩, extend_assoc path front rest⟩

end Path

/-! ## What elements remember -/

namespace Layout

/-- The elements directly beneath an element. Those of a template are among them. -/
def within : Layout → List Layout
  | .field _ => []
  | .fieldset _ members => members.map Prod.snd
  | .form _ members => members.map Prod.snd
  | .collection _ members => members.map Prod.snd
  | .series _ template siblings => (template :: siblings).flatten.map Prod.snd

/-- A path is remembered by an element itself or somewhere beneath it. -/
inductive Holds (place : Path) : Layout → Prop where
  | here {layout : Layout} (same : layout.path = place) : Holds place layout
  | beneath {layout part : Layout} (inside : part ∈ layout.within) (held : Holds place part) : Holds place layout

variable {part : Layout}

mutual
/-- What is listed for an element is remembered. -/
theorem holds_of_mem_elements : ∀ layout : Layout, part ∈ layout.elements → Holds part.path layout
  | .field path, listed => by
      obtain rfl := List.mem_singleton.mp listed
      exact .here rfl
  | .fieldset path members, listed => by
      rcases List.mem_cons.mp listed with rfl | listed
      · exact .here rfl
      · obtain ⟨entry, inside, held⟩ := holds_of_mem_memberElements members listed
        exact .beneath (List.mem_map_of_mem inside) held
  | .form path members, listed => by
      rcases List.mem_cons.mp listed with rfl | listed
      · exact .here rfl
      · obtain ⟨entry, inside, held⟩ := holds_of_mem_memberElements members listed
        exact .beneath (List.mem_map_of_mem inside) held
  | .collection path members, listed => by
      rcases List.mem_cons.mp listed with rfl | listed
      · exact .here rfl
      · obtain ⟨entry, inside, held⟩ := holds_of_mem_memberElements members listed
        exact .beneath (List.mem_map_of_mem inside) held
  | .series path template siblings, listed => by
      rcases List.mem_cons.mp listed with rfl | listed
      · exact .here rfl
      · obtain ⟨entry, inside, held⟩ := holds_of_mem_siblingElements siblings listed
        refine .beneath (List.mem_map_of_mem ?_) held
        exact List.mem_append_right template inside

/-- What is listed for some members is remembered by one of them. -/
theorem holds_of_mem_memberElements : ∀ members : List (String × Layout), part ∈ memberElements members →
    ∃ entry ∈ members, Holds part.path entry.2
  | (name, member) :: rest, listed => by
      rcases List.mem_append.mp listed with listed | listed
      · exact ⟨_, List.mem_cons_self, holds_of_mem_elements member listed⟩
      · obtain ⟨entry, inside, held⟩ := holds_of_mem_memberElements rest listed
        exact ⟨entry, List.mem_cons_of_mem _ inside, held⟩

/-- What is listed for some siblings is remembered by a member of one of them. -/
theorem holds_of_mem_siblingElements : ∀ siblings : List (List (String × Layout)), part ∈ siblingElements siblings →
    ∃ entry ∈ siblings.flatten, Holds part.path entry.2
  | members :: rest, listed => by
      rcases List.mem_append.mp listed with listed | listed
      · obtain ⟨entry, inside, held⟩ := holds_of_mem_memberElements members listed
        exact ⟨entry, List.mem_append_left _ inside, held⟩
      · obtain ⟨entry, inside, held⟩ := holds_of_mem_siblingElements rest listed
        exact ⟨entry, List.mem_append_right _ inside, held⟩
end

/-- The paths that are listed for an element are remembered. -/
theorem holds_of_mem_paths {kind : Layout → Bool} {layout : Layout} {place : Path} (listed : place ∈ layout.paths kind) :
    Holds place layout := by
  obtain ⟨part, kept, rfl⟩ := List.mem_map.mp listed
  exact holds_of_mem_elements layout (List.mem_filter.mp kept).1

/-- What a regular node or member remembers if it is built at some path. -/
inductive Built : Layout → Prop where
  | node {node : Node} (regular : node.Regular) (path : Path) : Built (node.layout path)
  | member {member : Member} (regular : Member.Regular member.inner) (path : Path) : Built (member.layout path)

theorem built_of_mem_layoutAll {members : List (String × Member)} (regular : Member.Regular members) {path : Path}
    (inside : part ∈ (Member.layoutAll path members).map Prod.snd) : part.Built ∧ part.path.Beneath path := by
  rw [Member.layoutAll_eq, List.map_map] at inside
  obtain ⟨⟨name, member⟩, there, rfl⟩ := List.mem_map.mp inside
  have own : (member.layout (path.join name)).path = path.join name := by
    cases member <;> rfl
  refine ⟨.member (regular.inner there) _, ?_⟩
  rw [Function.comp_apply, own]
  exact path.beneath_join (Path.plain_of_isMemberName (regular.isMemberName there))

theorem built_of_mem_layoutMembers {members : List (String × Node)} (regular : Node.RegularMembers members) {path : Path}
    (inside : part ∈ (Node.layoutMembers path members).map Prod.snd) : part.Built ∧ part.path.Beneath path := by
  rw [Node.layoutMembers_eq, List.map_map] at inside
  obtain ⟨⟨name, node⟩, there, rfl⟩ := List.mem_map.mp inside
  refine ⟨.node (regular.inner _ there) _, ?_⟩
  rw [Function.comp_apply, Node.path_layout]
  exact path.beneath_join (Path.plain_of_isMemberName (regular.named _ there))

/-- The names of members, the indices of siblings and the segment of a template are plain. -/
theorem Built.within {layout : Layout} (built : layout.Built) (inside : part ∈ layout.within) :
    part.Built ∧ part.path.Beneath layout.path := by
  cases built with
  | @member member regular path =>
      cases member with
      | field entry => cases inside
      | fieldset group members => exact built_of_mem_layoutAll regular inside
  | @node node regular path =>
      cases node with
      | form content => exact built_of_mem_layoutAll regular.form inside
      | collection frame progress members => exact built_of_mem_layoutMembers regular.collection inside
      | series frame template siblings =>
          obtain ⟨entry, listed, rfl⟩ := List.mem_map.mp inside
          rcases List.mem_append.mp listed with inTemplate | listed
          · have plain : Path.Plain Node.templateSegment := Path.plain_of_isIdentifier (by decide)
            obtain ⟨built, beneath⟩ := built_of_mem_layoutMembers regular.template (List.mem_map_of_mem inTemplate)
            exact ⟨built, beneath.trans (path.beneath_join plain)⟩
          · obtain ⟨members, isSibling, inMembers⟩ := List.mem_flatten.mp listed
            obtain ⟨index, there⟩ := List.mem_iff_getElem?.mp isSibling
            rw [Node.getElem?_layoutSiblings] at there
            obtain ⟨sibling, stands, rfl⟩ := Option.map_eq_some_iff.mp there
            have siblings := regular.series (List.mem_of_getElem? stands)
            obtain ⟨built, beneath⟩ := built_of_mem_layoutMembers siblings (List.mem_map_of_mem inMembers)
            exact ⟨built, beneath.trans (path.beneath_join (Path.plain_indexText index))⟩

/-- An element remembers paths beneath its own. -/
theorem Built.beneath {layout : Layout} (built : layout.Built) {place : Path} (held : Holds place layout) :
    place.Beneath layout.path := by
  induction held with
  | here same => exact same ▸ Path.beneath_self _
  | beneath inside _ ih =>
      obtain ⟨builtPart, beneath⟩ := built.within inside
      exact (ih builtPart).trans beneath

end Layout

namespace Tree

variable {tree : Tree}

/-- The path of the root is read from the namespace. -/
theorem isPlain_here (tree : Tree) : tree.here.IsPlain := by
  unfold here
  split
  · exact Path.isPlain_parse _
  · exact Path.isPlain_root

/-- The elements of a tree remember paths beneath that of the root. -/
theorem Remembers.beneath {layout : Layout} (remembers : tree.Remembers layout) {place : Path}
    (held : layout.Holds place) : place.Beneath tree.here := by
  obtain rfl := remembers.layout_eq
  have beneath := Layout.Built.beneath (.node remembers.reachable.regular tree.here) held
  rwa [Node.path_layout] at beneath

/-- The address of a path beneath the root leads to the path. -/
theorem path_text {path rest : Path} (plain : path.IsPlain) (stripped : path.stripFront? tree.here = some rest) :
    tree.path rest.text = path := by
  obtain rfl := Path.stripFront?_eq_some_iff.mp stripped
  rw [Tree.path, Path.parse_text (Path.isPlain_extend_iff.mp plain).2]

/-- Paths and their dotted texts stand for each other. Reading a text, writing the path and reading it once more changes
nothing; plain paths are recovered from what is written for them; and the paths that a tree remembers are plain and lie
beneath its root, where their addresses lead back to them. -/
theorem dotted_paths_recovered {layout : Layout} (remembers : tree.Remembers layout) :
    (∀ text, Path.parse (Path.parse text).text = Path.parse text) ∧
      (∀ path : Path, path.IsPlain → path.Recovered) ∧
      (∀ path rest : Path, path.IsPlain → path.stripFront? tree.here = some rest → tree.path rest.text = path) ∧
      ∀ path, layout.Holds path → path.IsPlain ∧
        ∃ rest, path.stripFront? tree.here = some rest ∧ tree.path rest.text = path := by
  refine ⟨Path.parse_text_parse, fun _ => Path.IsPlain.recovered, fun _ _ => path_text, fun path held => ?_⟩
  obtain ⟨rest, plainRest, rfl⟩ := remembers.beneath held
  have plain : (tree.here.extend rest).IsPlain := Path.isPlain_extend_iff.mpr ⟨tree.isPlain_here, plainRest⟩
  have stripped := Path.stripFront?_extend tree.here rest
  exact ⟨plain, rest, stripped, path_text plain stripped⟩

/-- The size of a third order that was added behind the first one is at a plain path, which its address leads back to. -/
theorem dotted_paths_recovered_orders : ∃ tree, Tree.mount orders none = .ok tree ∧
    ∃ layout, (tree.after (.addSibling ⟨["shop"]⟩ (some 0))).Remembers layout ∧
      layout.Holds ⟨["shop", "2", "order", "size"]⟩ ∧ Path.Recovered ⟨["shop", "2", "order", "size"]⟩ ∧
      (tree.after (.addSibling ⟨["shop"]⟩ (some 0))).path "2.order.size" = ⟨["shop", "2", "order", "size"]⟩ := by
  have holds : ((Tree.mount orders none).toOption.map fun tree =>
      let adding : Operation := .addSibling ⟨["shop"]⟩ (some 0)
      decide ((tree.after adding).here = ⟨["shop"]⟩ ∧ ⟨["shop", "2", "order", "size"]⟩ ∈
        (tree.layout.after (tree.answer adding).isOk adding).paths Layout.isField)) = some true := by decide
  obtain ⟨tree, mounted, holds⟩ := Option.map_eq_some_iff.mp holds
  rw [toOption_eq_some] at mounted
  obtain ⟨here, listed⟩ := of_decide_eq_true holds
  have remembers := Remembers.after (.mounted mounted) (.addSibling ⟨["shop"]⟩ (some 0))
  have held := Layout.holds_of_mem_paths listed
  obtain ⟨-, recovered, addressed, places⟩ := dotted_paths_recovered remembers
  obtain ⟨plain, -⟩ := places _ held
  have stripped : Path.stripFront? ⟨["shop", "2", "order", "size"]⟩ ⟨["shop"]⟩ = some ⟨["2", "order", "size"]⟩ := rfl
  rw [← here] at stripped
  exact ⟨tree, mounted, _, remembers, held, recovered _ plain, addressed _ _ plain stripped⟩

end Tree

end Formwork
