import Formwork.Proofs.Node.Siblings
import Formwork.Proofs.Tree.Commuting
import Formwork.Proofs.Tree.Inducing
import Formwork.Proofs.Tree.Landing

/-!
# What spares a sibling

A sibling of a series is *self-contained* if its conditions refer to nothing outside of it
(`Sibling.SelfContained`). What is read in such a sibling does not depend on where it stands, so it can be looked at
as a tree of its own (`Sibling.alone`, `Tree.Spares.lookup`). If that tree is at rest, then deriving flags and latches
anew wherever the sibling stands changes nothing in it and induces nothing beneath it (`Tree.Spares.refresh`,
`Tree.Spares.latch`, `Tree.Spares.silent`), and nothing that is induced elsewhere reaches it
(`Cycle.execute_spares`). So it is spared whenever a tree is settled (`Cycle.settle_spares`).
-/

set_option autoImplicit false

namespace Formwork

open Formwork.Text

/-! ## A sibling by itself -/

namespace Sibling

/-- The sibling as a tree of its own. -/
def alone (sibling : Sibling) : Tree where
  namespaceText := none
  root := sibling.body
  firing := none
  pending := none
  response := []
  strayErrors := []

/-- Whether all conditions and inducers of a sibling use relative references that stay beneath the sibling. -/
def SelfContained (sibling : Sibling) : Prop :=
  ∀ entry ∈ sibling.body.conditions .root, ∀ reference ∈ entry.2.references, reference.Stays entry.1

instance (sibling : Sibling) : Decidable sibling.SelfContained :=
  inferInstanceAs (Decidable (∀ entry ∈ sibling.body.conditions .root, ∀ reference ∈ entry.2.references,
    reference.Stays entry.1))

/-- Messages are nothing that conditions can read. -/
theorem lookup_alone {first second : Sibling} (same : first.muted = second.muted) :
    first.alone.lookup = second.alone.lookup := by
  have seen (sibling : Sibling) :
      sibling.body.views (fun entry active => entry.reading active) .root =
        sibling.muted.body.views (fun entry active => entry.reading active) .root :=
    (Node.views_redraw (fun place content => content.views_clearErrors (fun _ => rfl) place) .root sibling.body).symm
  refine Tree.lookup_congr rfl rfl ((seen first).trans (Eq.trans ?_ (seen second).symm))
  rw [same]

end Sibling

namespace Node

/-- A node that is redrawn with its inducers has them still. -/
theorem inducers_redraw {onForm : Form → Form} {onFrame : Frame → Frame}
    (keepsForm : ∀ content, (onForm content).inducers = content.inducers)
    (keepsFrame : ∀ frame, (onFrame frame).inducer = frame.inducer) (path : Path) (node : Node) :
    (node.redraw onForm onFrame).inducers path = node.inducers path := by
  rw [inducers_eq, inducers_eq, nodes_redraw, List.flatMap_map]
  refine List.flatMap_congr fun entry _ => ?_
  obtain ⟨place, inner⟩ := entry
  refine congrArg (List.map _) ?_
  cases inner with
  | form content => exact keepsForm content
  | collection frame progress members => exact congrArg Option.toList (keepsFrame frame)
  | series frame template siblings => exact congrArg Option.toList (keepsFrame frame)

end Node

namespace Tree

/-- In a tree at rest no inducer has turned true. -/
theorem AtRest.rising_eq_nil {tree : Tree} (rest : tree.AtRest) : tree.rising = [] := by
  rw [rising_of_rest rest rfl, turned, List.map_eq_nil_iff, List.filter_eq_nil_iff]
  intro entry _
  simp

/-- The sibling under an index beneath the series at a path. -/
def sibling? (tree : Tree) (series : Path) (index : Nat) : Option Sibling :=
  match tree.node? series with
  | some (.series _ _ siblings) => siblings[index]?
  | _ => none

theorem sibling?_eq_some_iff {tree : Tree} (regular : tree.root.Regular) {series : Path} {index : Nat}
    {sibling : Sibling} : tree.sibling? series index = some sibling ↔
      ∃ segments, tree.below? series = some segments ∧ tree.root.HasSibling segments index sibling := by
  unfold sibling? node?
  constructor
  · intro found
    split at found
    · rename_i frame template siblings stands
      obtain ⟨segments, below, stands⟩ := Option.bind_eq_some_iff.mp stands
      exact ⟨segments, below, frame, template, siblings, (Node.get?_eq_some_iff regular).mp stands, found⟩
    · cases found
  · rintro ⟨segments, below, frame, template, siblings, stands, there⟩
    rw [below, Option.bind_some, (Node.get?_eq_some_iff regular).mpr stands]
    exact there

/-! ## Trees that spare a sibling -/

variable (sibling : Sibling) (series : Path) (index : Nat)

/-- Under an index of a series stands what a sibling was, but for its messages, and no button fires in it. -/
structure Spares (tree : Tree) : Prop where
  regular : tree.root.Regular
  has : ∃ now, tree.sibling? series index = some now ∧ now.muted = sibling.muted
  still : ∀ rest, tree.fires ((series.join (indexText index)).extend rest) = false

variable {sibling series index}

theorem extend_sibling {tree : Tree} {segments : List String} (below : tree.below? series = some segments)
    (rest : Path) : (series.join (indexText index)).extend rest =
      tree.here.extend ⟨segments ++ indexText index :: rest.segments⟩ := by
  have joined := Path.join_extend (tree.here.extend ⟨segments⟩) (indexText index) rest.segments
  rw [Path.extend_append] at joined
  rw [below?_eq_some_iff.mp below]
  exact joined

namespace Spares

variable {tree : Tree}

/-- The sibling as it stands now, found from the root. -/
theorem exists_has (spares : tree.Spares sibling series index) : ∃ segments now, tree.below? series = some segments ∧
    tree.root.HasSibling segments index now ∧ now.muted = sibling.muted := by
  obtain ⟨now, found, same⟩ := spares.has
  obtain ⟨segments, leads, has⟩ := (sibling?_eq_some_iff spares.regular).mp found
  exact ⟨segments, now, leads, has, same⟩

theorem of_has (regular : tree.root.Regular)
    (still : ∀ rest, tree.fires ((series.join (indexText index)).extend rest) = false) {segments : List String}
    {now : Sibling} (leads : tree.below? series = some segments) (has : tree.root.HasSibling segments index now)
    (same : now.muted = sibling.muted) : tree.Spares sibling series index :=
  ⟨regular, ⟨now, (sibling?_eq_some_iff regular).mpr ⟨segments, leads, has⟩, same⟩, still⟩

/-- What is read in the sibling is what is read in it as a tree of its own. -/
theorem lookup (spares : tree.Spares sibling series index) (rest : Path) :
    tree.lookup ((series.join (indexText index)).extend rest) = sibling.alone.lookup rest := by
  obtain ⟨segments, now, leads, has, same⟩ := spares.exists_has
  have body : now.alone.root.Regular := has.regular_body spares.regular
  have below : now.alone.below? rest = some rest.segments := below?_eq_some_iff.mpr (Path.root_extend rest).symm
  rw [← Sibling.lookup_alone same, lookup_eq spares.regular, lookup_eq body, spares.still, extend_sibling leads,
    Tree.field?, Tree.field?, below?_eq_some_iff.mpr rfl, below, Option.bind_some, Option.bind_some, Node.field?,
    Node.field?, has.formAt? spares.regular]
  rfl

/-! ### Changes of everything -/

/-- A change of everything that goes with forgetting messages and leaves the sibling as it is spares it. -/
theorem map (spares : tree.Spares sibling series index) {onForm : Path → Form → Form}
    {onFrame : Path → Frame → Frame}
    (plain : onFrame (series.join (indexText index)) ⟨.plain, none⟩ = ⟨.plain, none⟩)
    (agree : ∀ place content, (onForm place content).clearErrors = onForm place content.clearErrors)
    (fixed : sibling.body.map false onForm onFrame (series.join (indexText index)) = sibling.body)
    (regular : (tree.root.map false onForm onFrame tree.here).Regular) :
    ({ tree with root := tree.root.map false onForm onFrame tree.here } : Tree).Spares sibling series index := by
  obtain ⟨segments, now, leads, has, same⟩ := spares.exists_has
  have changed := has.map onForm onFrame tree.here
  rw [← below?_eq_some_iff.mp leads] at changed
  refine of_has regular spares.still leads changed (Sibling.eq_of_body ?_ ?_)
  · have pristine : now.muted.isPristine = sibling.muted.isPristine := by rw [same]
    exact pristine
  · have drawn (other : Sibling) :
        (other.body.map false onForm onFrame (series.join (indexText index))).redraw Form.clearErrors id =
          other.muted.body.map false onForm onFrame (series.join (indexText index)) :=
      @Node.redraw_map_comm Form.clearErrors id onForm onFrame Form.clearErrors id agree (fun _ _ => rfl) _ _
    calc (now.map onForm onFrame (series.join (indexText index))).muted.body
        = (now.body.map false onForm onFrame (series.join (indexText index))).redraw Form.clearErrors id := by
          rw [Sibling.body_muted, Sibling.body_map plain]
      _ = (sibling.body.map false onForm onFrame (series.join (indexText index))).redraw Form.clearErrors id := by
          rw [drawn, same, drawn]
      _ = sibling.muted.body := by rw [fixed, Sibling.body_muted]

section Calm

variable (contained : sibling.SelfContained) (calm : sibling.alone.AtRest)
variable (spares : tree.Spares sibling series index)
include contained spares

/-- The conditions of the sibling are as true as in the sibling by itself. -/
theorem sameTruths : SameTruths (series.join (indexText index)) sibling.alone.lookup tree.lookup
    (sibling.body.conditions .root) :=
  sameTruths_of_stays contained spares.lookup

include calm

theorem refresh : tree.refresh.Spares sibling series index := by
  have derived := Node.refresh_congr (sameTruths contained spares)
  rw [Path.extend_root] at derived
  exact spares.map rfl (fun place content => content.clearErrors_refresh _ place)
    (derived.trans (refresh_eq_self_iff.mp calm.refreshed))
    (spares.regular.follows (Move.refresh tree).retains.toFollows)

theorem latch : tree.latch.Spares sibling series index := by
  have remembered := Node.latch_congr (sameTruths contained spares)
  rw [Path.extend_root] at remembered
  exact spares.map rfl (fun place content => content.clearErrors_latch _ place)
    (remembered.trans (latch_eq_self_iff.mp calm.latched))
    (spares.regular.follows (Move.latch tree).retains.toFollows)

/-- No inducer of the sibling has turned true. -/
theorem silent : ∀ event ∈ tree.rising, ∀ rest, event.path ≠ (series.join (indexText index)).extend rest := by
  intro event risen rest there
  obtain ⟨segments, now, leads, has, same⟩ := spares.exists_has
  have drawn (other : Sibling) (place : Path) : other.body.inducers place = other.muted.body.inducers place :=
    (@Node.inducers_redraw Form.clearErrors id (fun _ => rfl) (fun _ => rfl) place other.body).symm
  have nothing : sibling.body.rising tree.lookup (series.join (indexText index)) = [] := by
    have turned := Node.rising_congr (sameTruths contained spares)
    rw [Path.extend_root] at turned
    exact turned.trans (congrArg _ calm.rising_eq_nil)
  rw [rising, Node.rising_eq] at risen
  obtain ⟨⟨place, inducer⟩, rises, rfl⟩ := List.mem_map.mp risen
  obtain ⟨listed, rises⟩ := List.mem_filter.mp rises
  obtain ⟨inner, stands, own⟩ := Node.mem_inducers_iff.mp listed
  obtain rfl : place = _ := there
  rw [extend_sibling leads] at stands
  have inside := Node.mem_inducers_iff.mpr ⟨inner, has.mem_nodes spares.regular stands, own⟩
  rw [← extend_sibling leads, ← below?_eq_some_iff.mp leads] at inside
  have turned : inducer.event ((series.join (indexText index)).extend rest) ∈
      sibling.body.rising tree.lookup (series.join (indexText index)) := by
    rw [Node.rising_eq, drawn, ← same, ← drawn]
    exact List.mem_map.mpr ⟨_, List.mem_filter.mpr ⟨inside, rises⟩, rfl⟩
  rw [nothing] at turned
  cases turned

end Calm

/-! ### Changes elsewhere -/

/-- A change along a path that does not lead into the sibling spares it. -/
theorem change (spares : tree.Spares sibling series index) {place : Path} {edit : List String → Node → Node}
    (outside : ∀ rest, place ≠ (series.join (indexText index)).extend rest)
    (keeps : ∀ segments target now, ¬segments ++ [indexText index] <+: target →
      tree.root.HasSibling segments index now → (edit target tree.root).HasSibling segments index now)
    (regular : (tree.change place edit).root.Regular) : (tree.change place edit).Spares sibling series index := by
  cases below : tree.below? place with
  | none => rwa [change_of_none below]
  | some target =>
      rw [change_of_below below] at regular ⊢
      obtain ⟨segments, now, leads, has, same⟩ := spares.exists_has
      have apart : ¬segments ++ [indexText index] <+: target := by
        rintro ⟨further, rfl⟩
        refine outside ⟨further⟩ ?_
        rw [extend_sibling leads, below?_eq_some_iff.mp below, List.append_assoc, List.singleton_append]
      exact of_has regular spares.still leads (keeps _ _ _ apart has) same

theorem modifyForm (spares : tree.Spares sibling series index) {place : Path}
    (outside : ∀ rest, place ≠ (series.join (indexText index)).extend rest) {change : List String → Form → Form}
    (move : Move tree (tree.change place (Node.modifyForm change))) :
    (tree.change place (Node.modifyForm change)).Spares sibling series index :=
  spares.change outside (fun _ _ _ apart has => has.modifyForm spares.regular apart change)
    (spares.regular.follows move.retains.toFollows)

/-- A value that is stored outside of the sibling spares it. -/
theorem store (spares : tree.Spares sibling series index) {place : Path}
    (outside : ∀ rest, place ≠ (series.join (indexText index)).extend rest) (value : Value) :
    (tree.store place value).Spares sibling series index := by
  have stored := spares.modifyForm outside (.setValue tree place value)
  exact stored.change outside (fun _ _ _ apart has => has.touch stored.regular apart)
    (stored.regular.follows (Move.touch _ place).retains.toFollows)

/-- A button that fires outside of the sibling spares it, and so does the end of its firing. -/
theorem fire (spares : tree.Spares sibling series index) {firing : Option Firing}
    (outside : ∀ own ∈ firing, ∀ rest, own.path ≠ (series.join (indexText index)).extend rest) :
    ({ tree with firing } : Tree).Spares sibling series index := by
  refine ⟨spares.regular, spares.has, fun rest => ?_⟩
  cases firing with
  | none => rfl
  | some own => exact beq_eq_false_iff_ne.mpr (outside own rfl rest)

end Spares

end Tree

/-! ## Settling -/

namespace Cycle

variable {sibling : Sibling} {series : Path} {index : Nat} {cycle : Cycle}

/-- A move to a step records messages, so it spares a sibling. -/
theorem navigate_spares (spares : cycle.tree.Spares sibling series index) {place : Path} {step : Nat} {after : Cycle}
    {arrived : Bool} (navigated : cycle.navigate place step = .ok (after, arrived)) :
    after.tree.Spares sibling series index := by
  have regular := spares.regular.follows (cycle.navigate_moves navigated).retains.toFollows
  obtain ⟨node, moved, failures, validation, stands, gone, rfl⟩ := cycle.navigate_eq_ok navigated
  obtain ⟨segments, now, leads, has, same⟩ := spares.exists_has
  obtain ⟨steps, below, stands⟩ := Option.bind_eq_some_iff.mp stands
  dsimp only at regular ⊢
  rw [Tree.change_of_below below] at regular ⊢
  have alike := Node.redraw_modify stands
    (@Node.redraw_goTo Form.clearErrors id (fun place content => content.clearErrors_validate place) _ _ _ _ _ gone)
  obtain ⟨later, hasLater, sameLater⟩ := has.of_redraw alike
  exact .of_has regular spares.still leads hasLater (sameLater.trans same)

section Calm

variable (contained : sibling.SelfContained) (calm : sibling.alone.AtRest)
include contained calm

theorem execute_spares (spares : cycle.tree.Spares sibling series index) {event : InducedEvent}
    (outside : ∀ rest, event.path ≠ (series.join (indexText index)).extend rest) :
    (cycle.execute event).1.tree.Spares sibling series index := by
  unfold execute
  split
  · exact spares.modifyForm outside (.openDialog cycle.tree event.path)
  · split
    · exact spares
    · exact (spares.modifyForm outside (.closeDialog cycle.tree event.path _)).refresh contained calm
  · split
    · exact spares
    · split
      · rename_i navigated
        exact navigate_spares spares navigated
      · exact spares

theorem executeAll_spares (spares : cycle.tree.Spares sibling series index) {events : List InducedEvent}
    (outside : ∀ event ∈ events, ∀ rest, event.path ≠ (series.join (indexText index)).extend rest) :
    (executeAll events cycle).1.tree.Spares sibling series index := by
  induction events generalizing cycle with
  | nil => exact spares
  | cons event rest ih =>
      obtain ⟨first, others⟩ := List.forall_mem_cons.mp outside
      rw [executeAll_cons]
      have executed := execute_spares contained calm spares first
      exact @ih ((cycle.execute event).1.reported event) executed others

/-- Settling leaves a sibling as it is, and what it induces is elsewhere. -/
theorem settle_spares (spares : cycle.tree.Spares sibling series index) :
    cycle.settle.1.tree.Spares sibling series index ∧
      ∀ event ∈ cycle.risen, ∀ rest, event.path ≠ (series.join (indexText index)).extend rest := by
  have fresh := spares.refresh contained calm
  have silent := fresh.silent contained calm
  have induced := @executeAll_spares _ _ _ cycle.induced contained calm (fresh.latch contained calm) _ silent
  have quiet := @Tree.Spares.fire _ _ _ _ induced Option.none fun _ fires => by cases fires
  exact ⟨(quiet.refresh contained calm).latch contained calm, silent⟩

end Calm

end Cycle

end Formwork
