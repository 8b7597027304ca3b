import Formwork.Proofs.Node.Renumbering
import Formwork.Proofs.Tree.Sound
import Formwork.Proofs.Tree.Values

/-!
# Where fields come to stand

Siblings that come and go give the siblings behind them other indices, and nothing else changes the path of
a field (`Tree.landing`). What stands in a sibling goes along with it, be it a form or a field
(`Tree.Carried`), and what is new stands in the sibling that was added (`Tree.Carried.origin_of_added`).

Two things happen in an operation, one after the other: the fields come to stand where they land, and those
of a new sibling come up with their values at mounting (`Tree.Rearranged`); then the deeds of the operation
are done (`Tree.exists_rearranged`). So every field afterwards was there before, or holds its value at
mounting, and every field that is not removed is still there.
-/

set_option autoImplicit false

namespace Formwork.Tree

open Formwork.Text

/-! ## Siblings -/

/-- Where the field at a path stands after an operation, if it is still there: beneath a series to which a
sibling was added, or from which one was removed, its sibling may come under another index. -/
def landing (tree : Tree) (operation : Operation) (path : Path) : Option Path :=
  match (tree.answer operation).isOk, operation with
  | true, .addSibling series behind => path.renumber series (behind.elim some fun index => openGap (index + 1))
  | true, .removeSibling series index => path.renumber series (closeGap index)
  | _, _ => some path

section Landing

variable {tree : Tree} {cycle : Cycle} {series : Path}

theorem landing_addSibling {behind : Option Nat} (done : tree.answer (.addSibling series behind) = .ok cycle)
    (path : Path) : tree.landing (.addSibling series behind) path =
      path.renumber series (behind.elim some fun index => openGap (index + 1)) := by
  unfold landing
  rw [done]
  rfl

theorem landing_removeSibling {index : Nat} (done : tree.answer (.removeSibling series index) = .ok cycle)
    (path : Path) : tree.landing (.removeSibling series index) path = path.renumber series (closeGap index) := by
  unfold landing
  rw [done]
  rfl

theorem landing_of_refused {operation : Operation} {refusal : Rejection}
    (refused : tree.answer operation = .error refusal) : tree.landing operation = some := by
  funext path
  unfold landing
  rw [refused]
  rfl

/-- Only siblings that come or go move anything. -/
theorem landing_of_stays (tree : Tree) (operation : Operation)
    (notAdding : ∀ path behind, operation ≠ .addSibling path behind)
    (notRemoving : ∀ path index, operation ≠ .removeSibling path index) : tree.landing operation = some := by
  funext path
  unfold landing
  split
  · exact absurd rfl (notAdding _ _)
  · exact absurd rfl (notRemoving _ _)
  · rfl

end Landing

/-- Only fields of a sibling that is removed land nowhere. -/
theorem landing_eq_none_iff {tree : Tree} {operation : Operation} {path : Path} :
    tree.landing operation path = none ↔ ∃ series index rest, operation = .removeSibling series index ∧
      (tree.removeSibling series index).isOk = true ∧ path = series.extend ⟨indexText index :: rest⟩ := by
  constructor
  · intro lost
    unfold landing at lost
    split at lost
    · rename_i series behind _
      obtain ⟨number, rest, -, gone⟩ := Path.exists_of_renumber_eq_none lost
      cases behind <;> cases gone
    · rename_i series index accepted
      obtain ⟨number, rest, rfl, gone⟩ := Path.exists_of_renumber_eq_none lost
      exact ⟨series, index, rest, rfl, accepted, by rw [eq_of_closeGap_eq_none gone]⟩
    · cases lost
  · rintro ⟨series, index, rest, rfl, accepted, rfl⟩
    unfold landing
    rw [show (tree.answer (.removeSibling series index)).isOk = true from accepted]
    change Path.renumber _ series (closeGap index) = none
    rw [Path.renumber_sibling, closeGap, if_pos rfl, Option.map_none]

section Siblings

variable {tree : Tree} (regular : tree.root.Regular) {series place : Path}
include regular

theorem change_undo {node : Node} (stands : tree.node? series = some node) (other : Node) :
    (tree.change series (Node.modify fun _ => other)).change series (Node.modify fun _ => node) = tree := by
  obtain ⟨segments, below, found⟩ := Option.bind_eq_some_iff.mp stands
  rw [change_of_below below]
  have undone := Node.modify_undo regular ((Node.get?_eq_some_iff regular).mp found) other
  have back := @change_of_below { tree with root := tree.root.modify (fun _ => other) segments } series segments below
    (Node.modify fun _ => node)
  rw [back, undone]

theorem node?_replaced {node other : Node} (stands : tree.node? series = some node)
    (follows : other.Follows node) :
    (tree.change series (Node.modify fun _ => other)).node? series = some other := by
  have later := regular.follows (root_follows_modify stands follows)
  obtain ⟨segments, below, found⟩ := Option.bind_eq_some_iff.mp stands
  rw [change_of_below below] at later ⊢
  refine Option.bind_eq_some_iff.mpr ⟨segments, below, (Node.get?_eq_some_iff later).mpr ?_⟩
  have here := @Node.Stands.modify_beneath _ regular (fun _ => other) segments [] node other
    ((Node.get?_eq_some_iff regular).mp found) (.here other)
  rwa [List.append_nil] at here

/-- A field of a sibling that was added holds its value at mounting. -/
theorem isInitial_added {field : Field} {node extended : Node} {behind : Option Nat} {position : Nat}
    (sound : node.Sound) (stands : tree.node? series = some node)
    (added : node.addSibling series behind = .ok (extended, position)) {rest : List String}
    (listed : (series.extend ⟨indexText position :: rest⟩, field) ∈
      (tree.change series (Node.modify fun _ => extended)).fields) : field.holding.IsInitial := by
  have follows := Node.follows_addSibling added
  have later := regular.follows (root_follows_modify stands follows)
  have there := node?_replaced regular stands follows
  obtain ⟨frame, template, siblings, rfl, rfl, -, inside, -⟩ := Node.addSibling_eq_ok added
  generalize tree.change series _ = changed at later there listed
  obtain ⟨segments, rfl, standsNow⟩ := Node.mem_nodes_iff.mp ((node?_eq_some_iff later).mp there)
  have copied : (siblings.insertIdx position (.mk false template))[position]? = some (.mk false template) := by
    rw [List.getElem?_insertIdx_self, if_pos inside]
  obtain ⟨entry, ofTemplate, front, content, names, standsForm, member⟩ :=
    Node.exists_member_of_sibling later standsNow copied listed
  cases sound with
  | series _ _ fresh _ _ _ => exact fresh entry ofTemplate front content standsForm names field member

end Siblings

/-! ## What goes along with siblings -/

/-- What stands in a sibling goes along when the siblings of its series come under other indices, and what stands apart
from the series stays where it is. -/
structure Carried (stands : Tree → Path → Prop) : Prop where
  carry : ∀ {tree : Tree} {series path place : Path} {frame other : Frame} {template copies : List (String × Node)}
    {siblings others : List Sibling} {move : Nat → Option Nat}, tree.root.Regular →
    tree.node? series = some (.series frame template siblings) →
    (∀ number sibling moved, siblings[number]? = some sibling → move number = some moved →
      others[moved]? = some sibling) →
    stands tree path → path.renumber series move = some place →
    stands (tree.change series (Node.modify fun _ => .series other copies others)) place

theorem carried_forms (content : Form) : Carried fun tree path => (path, content) ∈ tree.forms where
  carry regular stands moves listed lands := by
    obtain ⟨segments, below, found⟩ := Option.bind_eq_some_iff.mp stands
    rw [change_of_below below]
    obtain rfl := below?_eq_some_iff.mp below
    exact Node.forms_renumbered regular ((Node.get?_eq_some_iff regular).mp found) moves lands listed

theorem carried_fields (field : Field) : Carried fun tree path => (path, field) ∈ tree.fields where
  carry regular stands moves listed lands := by
    obtain ⟨segments, below, found⟩ := Option.bind_eq_some_iff.mp stands
    rw [change_of_below below]
    obtain rfl := below?_eq_some_iff.mp below
    exact Node.fields_renumbered regular ((Node.get?_eq_some_iff regular).mp found) moves lands listed

namespace Carried

variable {stands : Tree → Path → Prop} (carried : Carried stands) {tree : Tree} (regular : tree.root.Regular)
  {series place : Path}
include carried regular

/-- After siblings have come under other indices, everything comes from where its sibling was, unless it stands in a
sibling that was not there. -/
theorem origin {frame other : Frame} {template copies : List (String × Node)} {siblings others : List Sibling}
    {move back : Nat → Option Nat} (isSeries : tree.node? series = some (.series frame template siblings))
    (follows : (Node.series other copies others).Follows (.series frame template siblings))
    (returns : ∀ number moved, back number = some moved → move moved = some number)
    (backs : ∀ number sibling moved, others[number]? = some sibling → back number = some moved →
      siblings[moved]? = some sibling)
    (listed : stands (tree.change series (Node.modify fun _ => .series other copies others)) place) :
    (∃ path, stands tree path ∧ path.renumber series move = some place) ∨
      ∃ number rest, place = series.extend ⟨indexText number :: rest⟩ ∧ back number = none := by
  cases lands : place.renumber series back with
  | none => exact .inr (Path.exists_of_renumber_eq_none lands)
  | some path =>
      have later := regular.follows (root_follows_modify isSeries follows)
      have there := @Carried.carry _ carried _ _ _ _ other frame copies template others siblings back later
        (node?_replaced regular isSeries follows) backs listed lands
      rw [change_undo regular isSeries] at there
      exact .inl ⟨path, there, Path.renumber_back returns lands⟩

theorem addSibling {path : Path} {node extended : Node} {behind : Option Nat} {position : Nat}
    (isSeries : tree.node? series = some node) (added : node.addSibling series behind = .ok (extended, position))
    (listed : stands tree path)
    (lands : path.renumber series (behind.elim some fun index => openGap (index + 1)) = some place) :
    stands (tree.change series (Node.modify fun _ => extended)) place := by
  obtain ⟨frame, template, siblings, rfl, rfl, rfl, -⟩ := Node.addSibling_eq_ok added
  exact carried.carry regular isSeries (fun _ _ _ => getElem?_added) listed lands

theorem removeSibling {path : Path} {node reduced : Node} {index : Nat} (isSeries : tree.node? series = some node)
    (removed : node.removeSibling series index = .ok reduced) (listed : stands tree path)
    (lands : path.renumber series (closeGap index) = some place) :
    stands (tree.change series (Node.modify fun _ => reduced)) place := by
  obtain ⟨frame, template, siblings, rfl, rfl, -⟩ := Node.removeSibling_eq_ok removed
  exact carried.carry regular isSeries (fun _ _ _ => getElem?_closeGap) listed lands

/-- After a sibling was added, everything comes from where it was, or stands in the new sibling. -/
theorem origin_of_added {node extended : Node} {behind : Option Nat} {position : Nat}
    (isSeries : tree.node? series = some node) (added : node.addSibling series behind = .ok (extended, position))
    (listed : stands (tree.change series (Node.modify fun _ => extended)) place) :
    (∃ path, stands tree path ∧
      path.renumber series (behind.elim some fun index => openGap (index + 1)) = some place) ∨
    ∃ rest, place = series.extend ⟨indexText position :: rest⟩ := by
  have follows := Node.follows_addSibling added
  obtain ⟨frame, template, siblings, rfl, rfl, same, -⟩ := Node.addSibling_eq_ok added
  cases behind with
  | some index =>
      obtain rfl : position = index + 1 := same
      refine (carried.origin regular isSeries follows (fun _ _ => openGap_of_closeGap)
        (fun number sibling moved there closed => ?_) listed).imp_right ?_
      · have kept := getElem?_closeGap there closed
        rwa [List.eraseIdx_insertIdx_self] at kept
      · rintro ⟨number, rest, rfl, lost⟩
        exact ⟨rest, by rw [eq_of_closeGap_eq_none lost]⟩
  | none =>
      obtain rfl : position = siblings.length := same
      refine (@origin stands carried tree regular series place frame frame template template siblings _ some
        (takeOff siblings.length) isSeries follows (fun number moved taken => ?_)
        (fun number sibling moved there taken => ?_) listed).imp_right ?_
      · rw [(takeOff_eq_some_iff.mp taken).1]
      · obtain ⟨rfl, inside⟩ := takeOff_eq_some_iff.mp taken
        obtain ⟨bound, -⟩ := List.getElem?_eq_some_iff.mp there
        rw [List.length_insertIdx_of_le_length (Nat.le_refl _)] at bound
        rwa [List.getElem?_insertIdx, if_pos (by omega)] at there
      · rintro ⟨number, rest, rfl, lost⟩
        exact ⟨rest, by rw [eq_of_takeOff_eq_none lost]⟩

/-- After a sibling was removed, everything comes from where it was. -/
theorem origin_of_removed {node reduced : Node} {index : Nat} (isSeries : tree.node? series = some node)
    (removed : node.removeSibling series index = .ok reduced)
    (listed : stands (tree.change series (Node.modify fun _ => reduced)) place) :
    ∃ path, stands tree path ∧ path.renumber series (closeGap index) = some place := by
  have follows := Node.follows_removeSibling removed
  obtain ⟨frame, template, siblings, rfl, rfl, -⟩ := Node.removeSibling_eq_ok removed
  refine (carried.origin regular isSeries follows (fun _ _ => closeGap_of_openGap)
    (fun number sibling moved there opened => ?_) listed).resolve_right fun ⟨_, _, _, lost⟩ => nomatch lost
  unfold openGap at opened
  rw [List.getElem?_eraseIdx] at there
  split at opened
  · cases opened
    rwa [if_pos (by assumption)] at there
  · cases opened
    rwa [if_neg (by assumption)] at there

end Carried

/-! ## Operations -/

/-- The fields of a tree stand where they land in an operation, and all other fields are those of a sibling
that was added and hold their values at mounting. -/
structure Rearranged (tree : Tree) (operation : Operation) (changed : Tree) : Prop where
  lands : ∀ path field place, (path, field) ∈ tree.fields → tree.landing operation path = some place →
    (place, field) ∈ changed.fields
  origin : ∀ place field, (place, field) ∈ changed.fields →
    (∃ path, (path, field) ∈ tree.fields ∧ tree.landing operation path = some place) ∨
      (∃ series behind, operation = .addSibling series behind) ∧ field.holding.IsInitial

/-- Nothing moves if every path lands at itself. -/
theorem Rearranged.refl {tree : Tree} {operation : Operation} (same : tree.landing operation = some) :
    tree.Rearranged operation tree where
  lands path field place listed lands := by
    rw [same] at lands
    cases lands
    exact listed
  origin place field listed := .inl ⟨place, listed, congrFun same place⟩

section Accepted

variable {tree : Tree} (reachable : tree.Reachable) {series : Path} {cycle : Cycle}
include reachable

theorem rearranged_addSibling {behind : Option Nat} {node extended : Node} {position : Nat}
    (done : tree.answer (.addSibling series behind) = .ok cycle) (stands : tree.node? series = some node)
    (added : node.addSibling series behind = .ok (extended, position)) :
    tree.Rearranged (.addSibling series behind) (tree.change series (Node.modify fun _ => extended)) := by
  have moved := landing_addSibling done
  have sound := sound_node? reachable.regular reachable.sound stands
  constructor
  · intro path field place listed lands
    rw [moved] at lands
    exact (carried_fields field).addSibling reachable.regular stands added listed lands
  · intro place field listed
    rcases (carried_fields field).origin_of_added reachable.regular stands added listed with
      ⟨path, before, lands⟩ | ⟨rest, rfl⟩
    · exact .inl ⟨path, before, (moved path).trans lands⟩
    · exact .inr ⟨⟨series, behind, rfl⟩, isInitial_added reachable.regular sound stands added listed⟩

theorem rearranged_removeSibling {index : Nat} {node reduced : Node}
    (done : tree.answer (.removeSibling series index) = .ok cycle) (stands : tree.node? series = some node)
    (removed : node.removeSibling series index = .ok reduced) :
    tree.Rearranged (.removeSibling series index) (tree.change series (Node.modify fun _ => reduced)) := by
  have moved := landing_removeSibling done
  constructor
  · intro path field place listed lands
    rw [moved] at lands
    exact (carried_fields field).removeSibling reachable.regular stands removed listed lands
  · intro place field listed
    obtain ⟨path, before, lands⟩ := (carried_fields field).origin_of_removed reachable.regular stands removed listed
    exact .inl ⟨path, before, (moved path).trans lands⟩

end Accepted

/-- In an operation the fields come to stand where they land, and then its deeds are done. -/
theorem exists_rearranged {tree : Tree} (reachable : tree.Reachable) (operation : Operation) :
    ∃ changed, tree.Rearranged operation changed ∧ Does (tree.deeds operation) changed (tree.after operation) := by
  have regular := reachable.regular
  have rest := reachable.atRest
  unfold after
  cases done : tree.answer operation with
  | error refusal =>
      refine ⟨tree, .refl (landing_of_refused done), ?_⟩
      rw [deeds_of_refused done]
      exact .of_eq rfl
  | ok cycle =>
      have settles {changed : Tree} {report : Report} (follows : changed.root.Follows tree.root)
          (quiet : changed.firing = tree.firing) : Does [] changed (Cycle.mk changed report).settle.1.tree :=
        .of_eq (@Cycle.settle_keeps ⟨changed, report⟩ (regular.follows follows) (quiet.trans rest.quiet))
      cases operation with
      | addSibling series behind =>
          obtain ⟨-, node, extended, position, stands, added, rfl⟩ := addSibling_eq_ok done
          have follows := root_follows_modify stands (Node.follows_addSibling added)
          exact ⟨_, rearranged_addSibling reachable done stands added, settles follows (tree.firing_change _ _)⟩
      | removeSibling series index =>
          obtain ⟨-, node, reduced, stands, removed, rfl⟩ := removeSibling_eq_ok done
          have follows := root_follows_modify stands (Node.follows_removeSibling removed)
          exact ⟨_, rearranged_removeSibling reachable done stands removed, settles follows (tree.firing_change _ _)⟩
      | _ => exact ⟨tree, .refl (tree.landing_of_stays _ nofun nofun), answer_does regular rest done nofun nofun⟩

/-- Every field that is still there holds what the deeds of the operation make of what it held. -/
theorem exists_landed {tree : Tree} (reachable : tree.Reachable) {operation : Operation} {path place : Path}
    {field : Field} (listed : (path, field) ∈ tree.fields) (lands : tree.landing operation path = some place) :
    ∃ later, (place, later) ∈ (tree.after operation).fields ∧
      later.holding = Deed.replay (tree.deeds operation) place field.holding := by
  obtain ⟨changed, rearranged, does⟩ := exists_rearranged reachable operation
  exact does.exists_field (rearranged.lands path field place listed lands)

/-- Every field that is there after an operation was there before, or holds its value at mounting. -/
theorem exists_origin {tree : Tree} (reachable : tree.Reachable) {operation : Operation} {place : Path}
    {later : Field} (listed : (place, later) ∈ (tree.after operation).fields) :
    (∃ path field, (path, field) ∈ tree.fields ∧ tree.landing operation path = some place ∧
      later.initial = field.initial) ∨ later.value = later.initial := by
  obtain ⟨changed, rearranged, does⟩ := exists_rearranged reachable operation
  obtain ⟨field, there, holding⟩ := does.exists_origin listed
  rcases rearranged.origin place field there with ⟨path, before, lands⟩ | ⟨⟨series, behind, rfl⟩, initial⟩
  · exact .inl ⟨path, field, before, lands, (congrArg Holding.initial holding).trans (Deed.initial_replay _)⟩
  · refine .inr ?_
    have same : later.holding = field.holding := holding
    change later.holding.IsInitial
    rwa [same]

end Formwork.Tree
