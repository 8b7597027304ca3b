import Formwork.Proofs.Node.RenumberedMarks
import Formwork.Proofs.Tree.Landing
import Formwork.Proofs.Tree.Payload

/-!
# Pristine siblings along a run

No move marks a sibling as pristine (`Tree.Moves.fades`), and storing a value touches every sibling around the
field (`Tree.not_offered_store`). In an operation siblings may come under other indices first, and then nothing but
moves follows (`Tree.exists_resized`). So a sibling that was touched stays touched wherever it lands, and a field
that has not been beneath a pristine sibling never comes to be beneath one. Both hold for any number of operations,
along which an element is followed by its path (`Tree.follow`).
-/

set_option autoImplicit false

namespace Formwork.Tree

open Formwork.Text

variable {tree after : Tree}

/-! ## Marks -/

variable (tree) in
/-- The marks of all siblings with the paths of the siblings. -/
def markings : List (Path × Bool) := tree.root.markings tree.here

theorem markings_unique (regular : tree.root.Regular) {path : Path} {first second : Bool}
    (listed : (path, first) ∈ tree.markings) (listedToo : (path, second) ∈ tree.markings) : first = second :=
  Node.markings_unique regular listed listedToo

/-- A path leads beneath a pristine sibling exactly if that of a marked sibling is a beginning of it. -/
theorem offered_iff_marked {path : Path} :
    tree.Offered path ↔ ∃ place, (place, true) ∈ tree.markings ∧ path.startsWith place = true := by
  constructor
  · intro offered
    obtain ⟨outer, _, _, _, index, _, rest, listed, -, rfl⟩ := id offered
    obtain ⟨front, rfl, -⟩ := Node.mem_nodes_iff.mp listed
    rw [Path.join_eq_extend, Path.extend_append, Path.extend_append] at offered ⊢
    exact (Node.offered_iff_marked tree.here).mp (offered_iff.mp offered)
  · rintro ⟨place, marked, around⟩
    obtain ⟨rest, same⟩ := List.isPrefixOf_iff_prefix.mp around
    obtain ⟨front, _, _, _, index, _, rfl, -⟩ := Node.mem_markings_iff.mp marked
    obtain rfl : path = tree.here.extend ⟨front ++ [indexText index] ++ rest⟩ := by
      rw [← Path.extend_append]
      exact congrArg Path.mk same.symm
    exact offered_iff.mpr ((Node.offered_iff_marked tree.here).mpr ⟨_, marked, around⟩)

/-- A move sets no mark. -/
theorem Move.fades (regular : tree.root.Regular) (move : Move tree after) :
    Node.Fades tree.markings after.markings := by
  rw [markings, markings, move.here]
  rcases move.root with same | moved
  · rw [same]
    exact .of_eq rfl
  · exact moved.fades regular tree.here

theorem Moves.fades (regular : tree.root.Regular) (moves : Moves tree after) :
    Node.Fades tree.markings after.markings := by
  have both : after.root.Regular ∧ Node.Fades tree.markings after.markings :=
    moves.keeps (motive := fun later => later.root.Regular ∧ Node.Fades tree.markings later.markings)
      (fun move ⟨regular, fades⟩ => ⟨regular.follows move.retains.toFollows, fades.trans (move.fades regular)⟩)
      ⟨regular, .of_eq rfl⟩
  exact both.2

/-- What has not been offered is not offered after some moves. -/
theorem Moves.offered (regular : tree.root.Regular) (moves : Moves tree after) {path : Path}
    (offered : after.Offered path) : tree.Offered path := by
  obtain ⟨place, marked, around⟩ := offered_iff_marked.mp offered
  exact offered_iff_marked.mpr ⟨place, (moves.fades regular).mem_of_marked marked, around⟩

/-- What is offered lies beneath the root. -/
theorem Offered.exists_below {path : Path} (offered : tree.Offered path) :
    ∃ segments, tree.below? path = some segments := by
  obtain ⟨outer, _, _, _, index, _, ⟨rest⟩, listed, -, rfl⟩ := offered
  obtain ⟨front, rfl, -⟩ := Node.mem_nodes_iff.mp listed
  refine ⟨front ++ [indexText index] ++ rest, below?_eq_some_iff.mpr ?_⟩
  rw [Path.join_eq_extend, Path.extend_append, Path.extend_append, List.append_assoc]

/-- No sibling around a place is pristine after the siblings on the way to it were touched. -/
theorem not_offered_touch (regular : tree.root.Regular) (place : Path) :
    ¬ (tree.change place Node.touch).Offered place := by
  intro offered
  obtain ⟨segments, below⟩ := offered.exists_below
  have same := below?_eq_some_iff.mp below
  rw [here_change] at same
  rw [change_of_below (below?_eq_some_iff.mpr same), same] at offered
  exact Node.not_offered_touch regular segments (offered_iff.mp offered)

/-- No sibling around a field is pristine after a value was stored in the field. -/
theorem not_offered_store (regular : tree.root.Regular) (place : Path) (value : Value) :
    ¬ (tree.store place value).Offered place :=
  not_offered_touch (regular.follows (Move.setValue tree place value).retains.toFollows) place

/-! ## Siblings that come under other indices -/

/-- What an operation does to siblings before anything else: nothing, or those of one series come under other
indices. -/
inductive Resized (tree : Tree) (operation : Operation) : Tree → Prop where
  | stays (lands : tree.landing operation = some) : Resized tree operation tree
  | series {series : Path} {frame : Frame} {template : List (String × Node)} {siblings others : List Sibling}
      {move : Nat → Option Nat} (stands : tree.node? series = some (.series frame template siblings))
      (follows : (Node.series frame template others).Follows (.series frame template siblings))
      (moves : ∀ number sibling moved, siblings[number]? = some sibling → move number = some moved →
        others[moved]? = some sibling)
      (lands : ∀ path, tree.landing operation path = path.renumber series move) :
      Resized tree operation (tree.change series (Node.modify fun _ => .series frame template others))

/-- After siblings have come under other indices, nothing but moves follows in an operation. -/
theorem exists_resized (tree : Tree) (operation : Operation) :
    ∃ changed, tree.Resized operation changed ∧ Moves changed (tree.after operation) := by
  unfold Tree.after
  cases done : tree.answer operation with
  | error refusal => exact ⟨tree, .stays (landing_of_refused done), .refl⟩
  | ok cycle =>
      cases operation with
      | addSibling series behind =>
          obtain ⟨-, node, extended, position, stands, added, rfl⟩ := addSibling_eq_ok done
          have follows := Node.follows_addSibling added
          obtain ⟨frame, template, siblings, rfl, rfl, rfl, -⟩ := Node.addSibling_eq_ok added
          exact ⟨_, .series stands follows (fun _ _ _ => getElem?_added) (landing_addSibling done),
            Cycle.settle_moves ⟨_, _⟩⟩
      | removeSibling series index =>
          obtain ⟨-, node, reduced, stands, removed, rfl⟩ := removeSibling_eq_ok done
          have follows := Node.follows_removeSibling removed
          obtain ⟨frame, template, siblings, rfl, rfl, -⟩ := Node.removeSibling_eq_ok removed
          exact ⟨_, .series stands follows (fun _ _ _ => getElem?_closeGap) (landing_removeSibling done),
            Cycle.settle_moves ⟨_, _⟩⟩
      | _ =>
          cases answer_course done with
          | moves moves => exact ⟨tree, .stays (tree.landing_of_stays _ nofun nofun), moves⟩

theorem Resized.regular {operation : Operation} {changed : Tree} (resized : tree.Resized operation changed)
    (before : tree.root.Regular) : changed.root.Regular := by
  cases resized with
  | stays => exact before
  | series stands follows => exact before.follows (root_follows_modify stands follows)

section Resized

variable {operation : Operation} {changed : Tree} (regular : tree.root.Regular)
  (resized : tree.Resized operation changed)
include regular resized

/-- Siblings take their marks with them. -/
theorem Resized.mem_markings {place target : Path} {mark : Bool} (listed : (place, mark) ∈ tree.markings)
    (lands : tree.landing operation place = some target) : (target, mark) ∈ changed.markings := by
  cases resized with
  | stays same =>
      rw [same] at lands
      cases lands
      exact listed
  | @series series _ _ _ _ _ stands follows moves same =>
      rw [same] at lands
      obtain ⟨segments, below, found⟩ := Option.bind_eq_some_iff.mp stands
      rw [change_of_below below]
      obtain rfl := below?_eq_some_iff.mp below
      exact Node.markings_renumbered regular ((Node.get?_eq_some_iff regular).mp found) moves listed lands

/-- A field that is offered where it lands was offered where it was. -/
theorem Resized.offered {path place : Path} {field : Field} (listed : (path, field) ∈ tree.fields)
    (lands : tree.landing operation path = some place) : changed.Offered place ↔ tree.Offered path := by
  have later := resized.regular regular
  cases resized with
  | stays same =>
      rw [same] at lands
      cases lands
      exact Iff.rfl
  | @series series _ _ _ _ _ stands follows moves same =>
      rw [same] at lands
      obtain ⟨segments, below, found⟩ := Option.bind_eq_some_iff.mp stands
      rw [change_of_below below] at later ⊢
      obtain rfl := below?_eq_some_iff.mp below
      obtain ⟨names, named, rfl, rfl, offered⟩ := Node.exists_offered_renumbered regular
        ((Node.get?_eq_some_iff regular).mp found) moves later listed lands
      rw [offered_iff]
      exact offered_iff.trans offered

end Resized

/-! ## Operations and runs -/

/-- A touched sibling stays touched where it lands. -/
theorem unmarked_after (regular : tree.root.Regular) {operation : Operation} {place target : Path}
    (touched : (place, false) ∈ tree.markings) (lands : tree.landing operation place = some target) :
    (target, false) ∈ (tree.after operation).markings := by
  obtain ⟨changed, resized, moves⟩ := exists_resized tree operation
  exact (moves.fades (resized.regular regular)).unmarked (resized.mem_markings regular touched lands)

/-- A field that is offered after an operation was offered before. -/
theorem offered_of_after (regular : tree.root.Regular) {operation : Operation} {path place : Path} {field : Field}
    (listed : (path, field) ∈ tree.fields) (lands : tree.landing operation path = some place)
    (offered : (tree.after operation).Offered place) : tree.Offered path := by
  obtain ⟨changed, resized, moves⟩ := exists_resized tree operation
  exact (resized.offered regular listed lands).mp (moves.offered (resized.regular regular) offered)

/-- Where the element at a path stands after some operations, if it is still there. -/
def follow : Tree → List Operation → Path → Option Path
  | _, [], path => some path
  | tree, operation :: rest, path => (tree.landing operation path).bind (follow (tree.after operation) rest)

section Runs

variable (reachable : tree.Reachable) {operations : List Operation} {path place : Path}
  (follows : tree.follow operations path = some place)
include reachable follows

/-- A touched sibling stays touched as long as it is there. -/
theorem unmarked_run (touched : (path, false) ∈ tree.markings) : (place, false) ∈ (tree.run operations).markings := by
  induction operations generalizing tree path with
  | nil =>
      cases follows
      exact touched
  | cons operation rest ih =>
      obtain ⟨target, lands, further⟩ := Option.bind_eq_some_iff.mp follows
      exact ih (.after reachable operation) further (unmarked_after reachable.regular touched lands)

/-- A field that is followed is there, with the widget that it had, and it is offered only if it was. -/
theorem exists_field_run {field : Field} (listed : (path, field) ∈ tree.fields) :
    ∃ later, (place, later) ∈ (tree.run operations).fields ∧ later.plan.widget = field.plan.widget ∧
      ((tree.run operations).Offered place → tree.Offered path) := by
  induction operations generalizing tree path field with
  | nil =>
      cases follows
      exact ⟨field, listed, rfl, id⟩
  | cons operation rest ih =>
      obtain ⟨target, lands, further⟩ := Option.bind_eq_some_iff.mp follows
      obtain ⟨middle, there, holding⟩ := exists_landed reachable listed lands
      obtain ⟨later, thereLater, widget, offered⟩ := ih (.after reachable operation) further there
      have sameWidget : middle.plan.widget = field.plan.widget :=
        (congrArg Holding.widget holding).trans (Deed.widget_replay _)
      exact ⟨later, thereLater, widget.trans sameWidget,
        fun after => offered_of_after reachable.regular listed lands (offered after)⟩

end Runs

end Formwork.Tree
