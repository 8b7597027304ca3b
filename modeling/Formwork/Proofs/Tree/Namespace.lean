import Formwork.Proofs.Node.References
import Formwork.Proofs.Tree.Building
import Formwork.Proofs.Tree.Paths
import Formwork.Proofs.Tree.Reading

/-!
# Trees under a namespace

`Tree.under` puts a tree that stands at the top under a namespace. A place of the tree is then found behind the
namespace, and nothing is found elsewhere (`Tree.field?_spaced`). What is done to the tree can be done before
or after (`Tree.change_under`, `Tree.validate_under`, `Tree.applyErrors_under`), as long as no condition is looked at.
If all references of the tree are steady, then its conditions hold under the namespace as they hold without it, and
the flags and inducers come out the same (`Tree.refresh_under`, `Tree.latch_under`, `Tree.rising_under`).
-/

set_option autoImplicit false

namespace Formwork

open Relation

/-- The firing of a button behind a path. -/
def Firing.under (above : Path) (firing : Firing) : Firing := { firing with path := above.extend firing.path }

/-- The submission that waits for its outcome, with its button behind a path. -/
def Pending.under (above : Path) (pending : Pending) : Pending :=
  { pending with button := above.extend pending.button }

theorem ValidationReport.ofFailures_shift (above : Path) (failures : List (Path × List String)) :
    ofFailures above (above.shift failures) = ofFailures .root failures := by
  have keys : (above.shift failures).map (fun entry =>
      (((entry.1.stripFront? above).getD entry.1).text, entry.2)) =
      failures.map fun entry => (((entry.1.stripFront? .root).getD entry.1).text, entry.2) := by
    rw [Path.shift, List.map_map]
    refine List.map_congr_left fun entry _ => ?_
    have top : entry.1.stripFront? .root = some entry.1 := by
      conv_lhs => rw [← entry.1.root_extend]
      exact Path.stripFront?_extend _ _
    rw [Function.comp_apply, Path.stripFront?_extend, top]
    rfl
  unfold ofFailures
  exact congrArg (fun entries => (⟨if (Response.gathered entries).isEmpty then 200 else 422,
    Response.gathered entries⟩ : ValidationReport)) keys

namespace Tree

/-- The tree under a namespace. -/
def under (text : String) (tree : Tree) : Tree :=
  { tree with
    namespaceText := some text
    firing := tree.firing.map (Firing.under (.parse text))
    pending := tree.pending.map (Pending.under (.parse text)) }

/-- The places of all fields. -/
def fieldPlaces (tree : Tree) : List Path := tree.fields.map Prod.fst

/-- All references of the conditions and the calls of a tree, each with the form or fieldset from which it is read. -/
def references (tree : Tree) : List (Path × Reference) := tree.root.references tree.here

/-- Whether every reference of the tree means the same with a namespace as without it. -/
def Steady (above : Path) (tree : Tree) : Prop := SteadyFrom above tree.fieldPlaces tree.references

instance (above : Path) (tree : Tree) : Decidable (tree.Steady above) :=
  inferInstanceAs (Decidable (SteadyFrom above tree.fieldPlaces tree.references))

/-- A tree at the top that can be put under a namespace. -/
structure Movable (above : Path) (tree : Tree) : Prop where
  top : tree.here = .root
  regular : tree.root.Regular
  steady : tree.Steady above

/-! ## What moves keep -/

theorem Moves.fieldPlaces {tree after : Tree} (moves : Moves tree after) : after.fieldPlaces = tree.fieldPlaces := by
  have places (tree : Tree) : tree.fieldPlaces = tree.layout.paths Layout.isField :=
    (Node.paths_fields tree.here tree.root).symm
  rw [places, places, moves.layout]

theorem Moves.references {tree after : Tree} (moves : Moves tree after) : after.references = tree.references := by
  have same := moves.listing Form.references Frame.references
  simp only [Form.references_asBuilt, Frame.references_asBuilt] at same
  exact same

theorem Moves.movable {above : Path} {tree after : Tree} (moves : Moves tree after) (movable : tree.Movable above) :
    after.Movable above where
  top := moves.here.trans movable.top
  regular := movable.regular.follows moves.retains.toFollows
  steady := by
    rw [Steady, moves.fieldPlaces, moves.references]
    exact movable.steady

/-! ## Places -/

variable {text : String} {tree : Tree}

@[simp]
theorem root_under : (tree.under text).root = tree.root := rfl

section Top

variable (top : tree.here = .root)
include top

theorem below?_eq (place : Path) : tree.below? place = some place.segments :=
  below?_eq_some_iff.mpr (by rw [top, Path.root_extend])

theorem below?_under (place : Path) :
    (tree.under text).below? ((Path.parse text).extend place) = tree.below? place := by
  rw [below?_eq top]
  exact below?_eq_some_iff.mpr rfl

theorem node?_under (place : Path) : (tree.under text).node? ((Path.parse text).extend place) = tree.node? place := by
  rw [node?, below?_under top, node?]
  rfl

theorem field?_under (place : Path) :
    (tree.under text).field? ((Path.parse text).extend place) = tree.field? place := by
  rw [field?, below?_under top, field?]
  rfl

theorem group?_under (place : Path) :
    (tree.under text).group? ((Path.parse text).extend place) = tree.group? place := by
  rw [group?, below?_under top, group?]
  rfl

theorem change_under (place : Path) (edit : List String → Node → Node) :
    (tree.under text).change ((Path.parse text).extend place) edit = (tree.change place edit).under text := by
  rw [change, below?_under top, change, below?_eq top]
  rfl

theorem fields_under : (tree.under text).fields = (Path.parse text).shift tree.fields := by
  have moved := Node.fields_extend (.parse text) .root tree.root
  rw [Path.extend_root, ← top] at moved
  exact moved

theorem target_under (free : (Path.parse text).last? ≠ some Response.groupKey) (key : String) :
    (tree.under text).target key = (Path.parse text).extend (tree.target key) := by
  have place : tree.path key = .parse key := by rw [path, top, Path.root_extend]
  have placeUnder : (tree.under text).path key = (Path.parse text).extend (.parse key) := rfl
  rw [target, target, place, placeUnder]
  by_cases named : Path.parse key = .root
  · rw [named, Path.extend_root, if_neg free, if_neg (by simp [Path.last?, Path.root]), Path.extend_root]
  · rw [Path.last?_extend _ named, Path.enclosing_extend _ named]
    split <;> rfl

/-! ## What looks at no condition -/

theorem validate_under :
    (tree.under text).validate = (tree.validate.1.under text, tree.validate.2) := by
  have failures : tree.root.failures (.parse text) = (Path.parse text).shift (tree.root.failures .root) := by
    have moved := Node.failures_extend (.parse text) .root tree.root
    rwa [Path.extend_root] at moved
  have report : ValidationReport.ofFailures (tree.under text).here (tree.root.failures (tree.under text).here) =
      ValidationReport.ofFailures tree.here (tree.root.failures tree.here) := by
    rw [top]
    exact (congrArg _ failures).trans (ValidationReport.ofFailures_shift _ _)
  rw [validate, validate]
  dsimp only
  rw [← report, Node.validate_path tree.here (.parse text)]
  rfl

theorem validatePart_under (scope : Path) :
    (tree.under text).validatePart ((Path.parse text).extend scope) =
      ((tree.validatePart scope).1.under text, (tree.validatePart scope).2) := by
  unfold validatePart
  rw [node?_under top, below?_under top, change_under top, change_under top, top]
  cases tree.node? scope with
  | some node =>
      dsimp only
      rw [Node.failures_extend, funext (Node.validate_path _ scope)]
      exact congrArg (Prod.mk _) (ValidationReport.ofFailures_shift _ _)
  | none =>
      have checks : Form.validateAt ((Path.parse text).extend scope) = Form.validateAt scope :=
        funext fun names => funext fun content => content.validateAt_path _ scope names
      rw [checks, root_under]
      cases (tree.below? scope).bind fun segments => tree.root.formAt? segments with
      | none => rfl
      | some found =>
          dsimp only
          rw [found.2.failuresAt_extend]
          exact congrArg (Prod.mk _) (ValidationReport.ofFailures_shift _ _)

theorem applyMessages_under (free : (Path.parse text).last? ≠ some Response.groupKey) (key : String)
    (messages : List String) :
    (tree.under text).applyMessages key messages = (tree.applyMessages key messages).under text := by
  rw [applyMessages_eq, applyMessages_eq, target_under top free, field?_under top, group?_under top,
    change_under top, change_under top]
  split
  · rfl
  · split <;> rfl

omit top in
theorem applyErrors_under {tree : Tree} (top : tree.here = .root)
    (free : (Path.parse text).last? ≠ some Response.groupKey) (messages : Messages) :
    (tree.under text).applyErrors messages = (tree.applyErrors messages).under text := by
  induction messages generalizing tree with
  | nil => rfl
  | cons entry rest ih =>
      have applied := (tree.applyMessages_notes entry.1 entry.2).moves.here.trans top
      exact (congrArg (·.applyErrors rest) (applyMessages_under top free entry.1 entry.2)).trans (ih applied)

theorem store_under (place : Path) (value : Value) :
    (tree.under text).store ((Path.parse text).extend place) value = (tree.store place value).under text := by
  rw [store, change_under top, change_under ((here_change _ _).trans top), store]

theorem partialPayload_under (scope : Path) :
    (tree.under text).partialPayload ((Path.parse text).extend scope) = tree.partialPayload scope := by
  rw [partialPayload, partialPayload, node?_under top, below?_under top]

end Top

/-! ## What conditions read -/

section Regular

variable (top : tree.here = .root) (regular : tree.root.Regular)
include top regular

/-- The form that owns a button stands behind the namespace where it stood. -/
theorem ownerOf_under (button : Path) :
    (tree.under text).ownerOf ((Path.parse text).extend button) = (Path.parse text).extend (tree.ownerOf button) := by
  unfold ownerOf
  rw [below?_under top, below?_eq top, root_under, Option.bind_some]
  cases found : tree.root.formAt? button.segments with
  | none => exact (congrArg _ top).trans (Path.extend_root _) |>.symm
  | some entry =>
      obtain ⟨front, same, -⟩ := (Node.formAt?_eq_some_iff regular).mp found
      have short : entry.1.length ≤ button.size := by
        rw [Path.size, same, List.length_append]
        exact Nat.le_add_left _ _
      dsimp only
      rw [Path.size_extend, Nat.add_sub_assoc short, Path.truncate_extend]

/-- A field stands behind the namespace where it stood, and no field stands elsewhere. -/
theorem field?_spaced : Spaced (.parse text) tree.fieldPlaces tree.field? (tree.under text).field? where
  same := field?_under top
  inside path field found := by
    obtain ⟨segments, below, -⟩ := Option.bind_eq_some_iff.mp found
    exact ⟨⟨segments⟩, below?_eq_some_iff.mp below⟩
  listed place field found := List.mem_map.mpr ⟨_, (field?_eq_some_iff regular).mp found, rfl⟩

omit top regular in
theorem fires_under (place : Path) : (tree.under text).fires ((Path.parse text).extend place) = tree.fires place := by
  rw [fires, fires, under]
  cases tree.firing with
  | none => rfl
  | some firing =>
      have same : (Path.parse text).extend firing.path = (Path.parse text).extend place ↔ firing.path = place :=
        ⟨Path.extend_injective, congrArg _⟩
      rw [Bool.eq_iff_iff]
      simpa [Firing.under] using same

/-- Conditions read behind the namespace what they read without it. -/
theorem lookup_spaced : Spaced (.parse text) tree.fieldPlaces tree.lookup (tree.under text).lookup := by
  have reads {tree : Tree} (regular : tree.root.Regular) :
      tree.lookup = fun place => (tree.field? place).bind fun field => some (field.reading (tree.fires place)) :=
    funext fun place => (lookup_eq regular place).trans Option.map_eq_bind
  have regularUnder : (tree.under text).root.Regular := regular
  rw [reads regular, reads regularUnder]
  exact (field?_spaced top regular).bind fun place field => by rw [fires_under]

end Regular

section Movable

variable (movable : tree.Movable (.parse text))
include movable

theorem Movable.steady_root : SteadyFrom (.parse text) tree.fieldPlaces (tree.root.references .root) := by
  have steady := movable.steady
  rwa [Steady, references, movable.top] at steady

theorem refresh_under : (tree.under text).refresh = tree.refresh.under text := by
  have root := Node.refresh_spaced (lookup_spaced movable.top movable.regular) movable.steady_root
  rw [Path.extend_root] at root
  rw [refresh, refresh, movable.top]
  exact congrArg (fun root => ({ tree with root } : Tree).under text) root

theorem latch_under : (tree.under text).latch = tree.latch.under text := by
  have root := Node.latch_spaced (lookup_spaced movable.top movable.regular) movable.steady_root
  rw [Path.extend_root] at root
  rw [latch, latch, movable.top]
  exact congrArg (fun root => ({ tree with root } : Tree).under text) root

theorem rising_under : (tree.under text).rising = tree.rising.map (InducedEvent.under (.parse text)) := by
  have events := Node.rising_spaced (lookup_spaced movable.top movable.regular) movable.steady_root
  rw [Path.extend_root] at events
  rw [rising, rising, movable.top]
  exact events

theorem refresh_latch_under : (tree.under text).refresh.latch = tree.refresh.latch.under text := by
  have refreshed : Moves tree tree.refresh := .single (.refresh _)
  rw [refresh_under movable, latch_under (refreshed.movable movable)]

theorem restore_under : (tree.under text).restore = tree.restore.under text := by
  have blank : Moves tree { tree with root := tree.root.reset, strayErrors := [] } :=
    (ReflTransGen.single (.reset tree)).tail (.note (.stray _ []))
  rw [restore, restore, ← refresh_latch_under (blank.movable movable)]
  rfl

end Movable

/-! ## Calls -/

/-- The calls of a button that can be carried out under a namespace. -/
structure Carries (above : Path) (tree : Tree) (button : Path) (calls : List Call) : Prop where
  inner : button ≠ .root
  steady : Steadies above button.enclosing tree.fieldPlaces (calls.flatMap Call.references)

theorem Moves.carries {above : Path} {tree after : Tree} {button : Path} {calls : List Call} (moves : Moves tree after)
    (carries : tree.Carries above button calls) : after.Carries above button calls :=
  ⟨carries.inner, by rw [moves.fieldPlaces]; exact carries.steady⟩

theorem Carries.append_iff {above : Path} {button : Path} {first second : List Call} :
    tree.Carries above button (first ++ second) ↔
      tree.Carries above button first ∧ tree.Carries above button second := by
  constructor
  · rintro ⟨inner, steady⟩
    rw [List.flatMap_append, Expression.steadies_append] at steady
    exact ⟨⟨inner, steady.1⟩, ⟨inner, steady.2⟩⟩
  · rintro ⟨one, two⟩
    refine ⟨one.inner, ?_⟩
    rw [List.flatMap_append, Expression.steadies_append]
    exact ⟨one.steady, two.steady⟩

/-- A reference of a call means the first candidate at which a field with a value stands. -/
theorem resolveField?_eq (tree : Tree) (button : Path) (target : Reference) : tree.resolveField? button target =
    (target.candidates button.enclosing).findSome? fun path => (tree.field? path).bind fun field =>
      if field.isButton then none else some path := by
  rw [resolveField?, List.find?_eq_findSome?_guard]
  refine congrArg (List.findSome? · _) (funext fun path => ?_)
  rw [Option.guard]
  cases tree.field? path with
  | none => rfl
  | some field => cases kind : field.isButton <;> simp [kind]

section Calls

variable (movable : tree.Movable (.parse text)) {button : Path} (inner : button ≠ .root)
include movable inner

/-- A reference of a call means behind the namespace the field that it meant. -/
theorem resolveField?_under {target : Reference}
    (steady : target.Steady button.enclosing (.parse text) tree.fieldPlaces) :
    (tree.under text).resolveField? ((Path.parse text).extend button) target =
      (tree.resolveField? button target).map (Path.parse text).extend := by
  -- What is found is named by its place behind the namespace in both trees.
  have spaced : Spaced (.parse text) tree.fieldPlaces
      (fun place => (tree.field? place).bind fun field =>
        if field.isButton then none else some ((Path.parse text).extend place))
      fun path => ((tree.under text).field? path).bind fun field => if field.isButton then none else some path :=
    (field?_spaced movable.top movable.regular).bind fun _ _ => rfl
  rw [resolveField?_eq, resolveField?_eq, List.map_findSome?, Path.enclosing_extend _ inner,
    steady.findSome?_candidates spaced]
  refine congrArg (List.findSome? · _) (funext fun place => ?_)
  rw [Function.comp_apply]
  cases tree.field? place with
  | none => rfl
  | some field => cases kind : field.isButton <;> simp [kind]

theorem resolved_under {target : Reference}
    (steady : target.Steady button.enclosing (.parse text) tree.fieldPlaces) :
    ((tree.under text).resolveField? ((Path.parse text).extend button) target).bind (tree.under text).field? =
      (tree.resolveField? button target).bind tree.field? := by
  rw [resolveField?_under movable inner steady, Option.bind_map]
  exact congrArg _ (funext (field?_under movable.top))

theorem argumentValue?_under {argument : Argument}
    (steady : Steadies (.parse text) button.enclosing tree.fieldPlaces argument.references) :
    (tree.under text).argumentValue? ((Path.parse text).extend button) argument =
      tree.argumentValue? button argument := by
  cases argument with
  | path target =>
      exact congrArg (Option.map Field.value) (resolved_under movable inner (steady target List.mem_cons_self))
  | _ => rfl

theorem argumentText_under {argument : Argument}
    (steady : Steadies (.parse text) button.enclosing tree.fieldPlaces argument.references) :
    (tree.under text).argumentText ((Path.parse text).extend button) argument = tree.argumentText button argument := by
  rw [argumentText, argumentText, argumentValue?_under movable inner steady]

end Calls

end Tree

end Formwork
