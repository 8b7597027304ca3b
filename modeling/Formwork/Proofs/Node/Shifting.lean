import Formwork.Proofs.Node.Leaves
import Formwork.Proofs.Node.Everywhere

/-!
# Nodes at longer paths

A node holds no paths, so it can stand anywhere. When the path at which it stands is put behind another path, then
so is the path of everything that is listed, checked or refused (`Node.nodes_extend`, `Node.failures_extend`,
`Node.goTo_extend`), and what a check records in the node is the same as before (`Node.validate_path`).
-/

set_option autoImplicit false

namespace Formwork

open Formwork.Text

/-! ## Entries -/

namespace Path

variable {α β : Type} (above : Path)

/-- Entries with their paths behind another path. -/
def shift (entries : List (Path × α)) : List (Path × α) :=
  entries.map fun entry => (above.extend entry.1, entry.2)

theorem isEmpty_shift (entries : List (Path × α)) : (above.shift entries).isEmpty = entries.isEmpty := List.isEmpty_map

theorem shift_flatMap (list : β → List (Path × α)) (items : List β) :
    above.shift (items.flatMap list) = items.flatMap fun item => above.shift (list item) := List.map_flatMap

theorem filterMap_shift (view : α → Option β) (entries : List (Path × α)) :
    (above.shift entries).filterMap (fun entry => (view entry.2).map (entry.1, ·)) =
      above.shift (entries.filterMap fun entry => (view entry.2).map (entry.1, ·)) := by
  rw [shift, shift, List.filterMap_map, List.map_filterMap]
  refine List.filterMap_congr fun entry _ => ?_
  rw [Function.comp_apply, Option.map_map]
  rfl

theorem flatMap_shift {list : Path × α → List (Path × β)}
    (moves : ∀ entry, list (above.extend entry.1, entry.2) = above.shift (list entry)) (entries : List (Path × α)) :
    (above.shift entries).flatMap list = above.shift (entries.flatMap list) := by
  rw [shift_flatMap, shift, List.flatMap_map]
  exact List.flatMap_congr fun entry _ => moves entry

end Path

/-! ## Members -/

namespace Member

variable (above path other : Path) (members : List (String × Member))

theorem fields_extend : fields (above.extend path) members = above.shift (fields path members) := by
  rw [fields, itemsAll_extend]
  exact above.filterMap_shift Item.field? _

theorem failures_eq : failures path members = (operable path members).filterMap fun entry =>
    (if entry.2.isValid then none else some entry.2.check).map (entry.1, ·) := by
  refine List.filterMap_congr fun entry _ => ?_
  dsimp only
  split <;> rfl

theorem operable_extend : operable (above.extend path) members = above.shift (operable path members) := by
  rw [operable, fields_extend, Path.shift, List.filter_map]
  rfl

theorem failures_extend : failures (above.extend path) members = above.shift (failures path members) := by
  rw [failures_eq, failures_eq, operable_extend]
  exact above.filterMap_shift (fun entry : Field => if entry.isValid then none else some entry.check) _

/-- Whether a field is invalid does not depend on where the fields stand. -/
theorem isEmpty_failures : (failures path members).isEmpty = (failures other members).isEmpty := by
  have root (place : Path) : (failures place members).isEmpty = (failures .root members).isEmpty := by
    have shifted := failures_extend place .root members
    rw [Path.extend_root] at shifted
    rw [shifted, Path.isEmpty_shift]
  rw [root path, root other]

theorem settle_path (group : Group) : settle path members group = settle other members group := by
  rw [settle, settle, isEmpty_failures path other]

/-- A check records the same wherever the member stands. -/
theorem validate_path (member : Member) : member.validate path = member.validate other := by
  induction member using Member.induction generalizing path other with
  | field entry => rfl
  | fieldset group members ih =>
      rw [validate, validate, settle_path path other, validateAll_eq, validateAll_eq]
      split
      · rfl
      · exact congrArg _ (List.map_congr_left fun entry inside => by rw [ih entry inside _ (other.join entry.1)])

end Member

/-! ## Forms -/

namespace Form

variable (above path other : Path) (form : Form)

theorem fields_extend : form.fields (above.extend path) = above.shift (form.fields path) :=
  Member.fields_extend above path form.members

theorem failures_extend : form.failures (above.extend path) = above.shift (form.failures path) :=
  Member.failures_extend above path form.members

theorem failuresAt_extend (names : List String) :
    form.failuresAt (above.extend path) names = above.shift (form.failuresAt path names) := by
  unfold failuresAt
  split
  · exact form.failures_extend above path
  · split
    · exact Member.failures_extend above path _
    · rfl

theorem collected_extend : form.collected (above.extend path) = above.shift (form.collected path) := by
  rw [collected, collected, Member.operable_extend, Path.shift, Path.shift, List.map_map, List.map_map]
  rfl

theorem validate_path : form.validate path = form.validate other := by
  have members : Member.validateAll path form.members = Member.validateAll other form.members := by
    rw [Member.validateAll_eq, Member.validateAll_eq]
    exact List.map_congr_left fun entry _ => by rw [Member.validate_path _ (other.join entry.1)]
  rw [validate, validate, Member.settle_path path other, members]

theorem validateAt_path (names : List String) : form.validateAt path names = form.validateAt other names := by
  unfold validateAt
  split
  · exact form.validate_path path other
  · simp only [Member.validate_path path other]

/-- A dialog is left in the same way wherever its form stands. -/
theorem closeDialog_path (mode : CloseMode) : form.closeDialog path mode = form.closeDialog other mode := by
  have checked : (form.failures path).isEmpty = (form.failures other).isEmpty :=
    Member.isEmpty_failures path other form.members
  unfold closeDialog
  rw [checked, form.validate_path path other]

end Form

/-! ## Enumerations -/

namespace Node

variable (above path : Path)

theorem nodes_extend (liveOnly : Bool) (node : Node) :
    node.nodes liveOnly (above.extend path) = above.shift (node.nodes liveOnly path) := by
  have members (place : Path) {entries : List (String × Node)}
      (ih : ∀ entry ∈ entries, ∀ path,
        entry.2.nodes liveOnly (above.extend path) = above.shift (entry.2.nodes liveOnly path)) :
      memberNodes liveOnly (above.extend place) entries = above.shift (memberNodes liveOnly place entries) := by
    rw [memberNodes_eq, memberNodes_eq, Path.shift_flatMap]
    exact List.flatMap_congr fun entry inside => by rw [Path.extend_join, ih entry inside]
  induction node using Node.induction generalizing path with
  | form content => rfl
  | collection frame progress entries ih =>
      rw [nodes, nodes, members path fun entry inside path => ih entry inside path]
      rfl
  | series frame template siblings _ ih =>
      rw [nodes, nodes, siblingNodes_eq, siblingNodes_eq]
      refine congrArg ((above.extend path, Node.series frame template siblings) :: ·) ?_
      refine Eq.trans (List.flatMap_congr fun entry inside => ?_) (above.shift_flatMap _ _).symm
      split
      · rfl
      · rw [Path.extend_join]
        exact members _ (ih entry.1 (List.fst_mem_of_mem_zipIdx inside))

theorem forms_extend (liveOnly : Bool) (node : Node) :
    node.forms liveOnly (above.extend path) = above.shift (node.forms liveOnly path) := by
  rw [forms, nodes_extend]
  exact above.filterMap_shift form? _

theorem fields_extend (node : Node) : node.fields (above.extend path) = above.shift (node.fields path) := by
  rw [fields, forms_extend]
  exact above.flatMap_shift (fun entry => entry.2.fields_extend above entry.1) _

theorem failures_extend (node : Node) : node.failures (above.extend path) = above.shift (node.failures path) := by
  rw [failures, forms_extend]
  refine above.flatMap_shift (fun entry => ?_) _
  dsimp only
  split
  · rfl
  · exact entry.2.failures_extend above entry.1

theorem collected_extend (node : Node) : node.collected (above.extend path) = above.shift (node.collected path) := by
  rw [collected, forms_extend]
  exact above.flatMap_shift (fun entry => entry.2.collected_extend above entry.1) _

/-! ## Changes -/

/-- A check records the same wherever the node stands. -/
theorem validate_path (path other : Path) (node : Node) : node.validate path = node.validate other := by
  have same (place : Path) : node.validate place =
      node.map true (fun _ content => if content.isClosedDialog then content else content.validate .root)
        (fun _ frame => frame) place := by
    rw [validate]
    refine congrArg (fun onForm => node.map true onForm _ place) (funext fun here => funext fun content => ?_)
    rw [content.validate_path here .root]
  rw [same path, same other]
  exact map_const true _ path other node

end Node

/-! ## Answers -/

/-- The refusal at a place behind a path. -/
def Rejection.under (above : Path) : Rejection → Rejection
  | .busy => .busy
  | .unknownPath path => .unknownPath (above.extend path)
  | .notAnActivator path => .notAnActivator (above.extend path)
  | .notAValueField path => .notAValueField (above.extend path)
  | .notACollection path => .notACollection (above.extend path)
  | .disabled path => .disabled (above.extend path)
  | .hidden path => .hidden (above.extend path)
  | .notRepeatable path => .notRepeatable (above.extend path)
  | .maxSiblingsReached path greatest => .maxSiblingsReached (above.extend path) greatest
  | .minSiblingsReached path least => .minSiblingsReached (above.extend path) least
  | .siblingOutOfRange path index => .siblingOutOfRange (above.extend path) index
  | .notAStepper path => .notAStepper (above.extend path)
  | .stepOutOfRange path index => .stepOutOfRange (above.extend path) index
  | .stepNotReachable path index => .stepNotReachable (above.extend path) index
  | .noSubmissionPending => .noSubmissionPending

/-- What is answered at a place behind a path: another view of the same result, or the same refusal there. -/
def Path.answer {Value Result : Type} (above : Path) (view : Value → Result) :
    Except Rejection Value → Except Rejection Result
  | .ok result => .ok (view result)
  | .error rejection => .error (rejection.under above)

namespace Node

variable (above path : Path)

theorem stepFailures_extend (first last : Nat) (members : List (String × Node)) :
    stepFailures (above.extend path) first last members = above.shift (stepFailures path first last members) := by
  rw [stepFailures, stepFailures, Path.shift_flatMap]
  exact List.flatMap_congr fun entry _ => by dsimp only; rw [Path.extend_join, failures_extend]

theorem validateSteps_path (path other : Path) (first last : Nat) (members : List (String × Node)) :
    validateSteps path first last members = validateSteps other first last members :=
  List.map_congr_left fun entry _ => by dsimp only; rw [validate_path _ (other.join entry.1.1)]

theorem goTo_extend (index : Nat) (node : Node) : node.goTo (above.extend path) index =
    above.answer (fun outcome => (outcome.1, above.shift outcome.2)) (node.goTo path index) := by
  cases node with
  | form content => rfl
  | series frame template siblings => rfl
  | collection frame progress members =>
      cases progress with
      | none => rfl
      | some progress =>
          rw [goTo, goTo, stepFailures_extend, validateSteps_path (above.extend path) path]
          dsimp only
          rw [Path.isEmpty_shift]
          split_ifs <;> rfl

theorem addSibling_extend (behind : Option Nat) (node : Node) :
    node.addSibling (above.extend path) behind = above.answer id (node.addSibling path behind) := by
  cases node with
  | form content => rfl
  | collection frame progress members => cases progress <;> rfl
  | series frame template siblings =>
      unfold addSibling
      dsimp only
      cases frame.plan.maxSiblings with
      | none =>
          cases behind with
          | none => rfl
          | some index =>
              dsimp only
              split_ifs <;> rfl
      | some greatest =>
          cases behind with
          | none =>
              dsimp only
              split_ifs <;> rfl
          | some index =>
              dsimp only
              split_ifs <;> rfl

theorem removeSibling_extend (index : Nat) (node : Node) :
    node.removeSibling (above.extend path) index = above.answer id (node.removeSibling path index) := by
  cases node with
  | form content => rfl
  | collection frame progress members => cases progress <;> rfl
  | series frame template siblings =>
      rw [removeSibling, removeSibling]
      dsimp only
      split_ifs <;> rfl

end Node

end Formwork
